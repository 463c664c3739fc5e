import Proxyd.Go.Json

/-
  Proxyd.Rpc.Types

  The JSON-RPC records of `rpc.go` and the error values of `backend.go` that
  the modelled request path reads.  A `json.RawMessage` that may be absent
  (`params`, `id`) is an `Option Json`; an `interface{}` result is the JSON
  text it prints, `none` standing for Go's `nil`.
-/

namespace Proxyd.Rpc

open Proxyd.Go

/-- `RPCReq`. -/
structure RPCReq where
  jsonrpc : String
  method : String
  params : Option Json
  id : Option Json
  deriving Repr

/-- `RPCErr`; `HTTPErrorCode` is not printed. -/
structure RPCErr where
  code : Int
  message : String
  data : String
  httpErrorCode : Nat
  deriving DecidableEq, Repr

/-- `RPCRes`. -/
structure RPCRes where
  jsonrpc : String
  result : Option Json
  error : Option RPCErr
  id : Option Json
  deriving Repr

/-- `JSONRPCVersion`. -/
def jsonRPCVersion : String := "2.0"

/-- `ErrParseErr`. -/
def errParseErr : RPCErr := ⟨-32700, "parse error", "", 400⟩

/-- `ErrBlockOutOfRange`. -/
def errBlockOutOfRange : RPCErr := ⟨-32000 - 19, "block is out of range", "", 400⟩

/-- `ErrBackendBadResponse`. -/
def errBackendBadResponse : RPCErr := ⟨-32000 - 13, "backend returned an invalid response", "", 500⟩

/-- `ErrMethodNotWhitelisted`. -/
def errMethodNotWhitelisted : RPCErr := ⟨-32601, "rpc method is not whitelisted", "", 403⟩

/-- `ErrInvalidRequest(msg)`. -/
def errInvalidRequest (msg : String) : RPCErr := ⟨-32600, msg, "", 400⟩

/-- `ErrInvalidParams(msg)`. -/
def errInvalidParams (msg : String) : RPCErr := ⟨-32602, msg, "", 400⟩

/-- `json.Unmarshal` into an `RPCReq`: the tagged fields match keys case-
    insensitively and the last matching member wins; `params` and `id` keep
    the raw value. -/
def unmarshalRPCReq : Json → Except String RPCReq
  | .null => .ok ⟨"", "", none, none⟩
  | .obj ms => do
    let jsonrpc ← decodeStringField "RPCReq.jsonrpc" (foldMatches ms "jsonrpc") ""
    let method ← decodeStringField "RPCReq.method" (foldMatches ms "method") ""
    return ⟨jsonrpc, method, (foldMatches ms "params").getLast?, (foldMatches ms "id").getLast?⟩
  | j => .error ("json: cannot unmarshal " ++ j.kind ++ " into Go value of type proxyd.RPCReq")

/-- `ParseRPCReq`: a body that is not JSON, or not an `RPCReq`, is a parse error. -/
def parseRPCReq : Option Json → Except RPCErr RPCReq
  | none => .error errParseErr
  | some j =>
    match unmarshalRPCReq j with
    | .ok req => .ok req
    | .error _ => .error errParseErr

/-- `NewRPCErrorRes` for an `RPCErr`. -/
def newRPCErrorRes (id : Option Json) (err : RPCErr) : RPCRes := ⟨jsonRPCVersion, none, some err, id⟩

/-- `NewRPCRes`. -/
def newRPCRes (id : Option Json) (result : Json) : RPCRes := ⟨jsonRPCVersion, some result, none, id⟩

end Proxyd.Rpc
