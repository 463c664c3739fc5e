import Proxyd.Eth.BlockNumber
import Proxyd.Rpc.Types
import Proxyd.Rpc.Rewriter

/-
  Proxyd.Rpc.Forward

  `Backend.doForward` of `backend.go`: one HTTP exchange with a backend.

    * Before sending, a non-batched `consensus_getReceipts` is translated in
      place to the backend's `receiptsTarget`: the method is replaced, the
      params are decoded as `[]rpc.BlockNumberOrHash` and their first element
      rewritten into the target's parameter form.
    * After the exchange, the body is decoded as one `RPCRes` (a single
      request) or as `[]*RPCRes`; a status `400` is copied into every
      entry's error; translated answers are wrapped with the method that
      served them; the answers are sorted into request order.

  What the backend answers is a parameter (`HttpOutcome`): any transport
  error, status and body.  The run returns the requests as the loop left
  them (they are shared with the caller), and either the answers or the
  error; a Go panic is an `Except GoPanic`.
-/

namespace Proxyd.Rpc

open Proxyd.Go Proxyd.Eth

/-- The fields of `Backend` that `doForward` reads besides its transport. -/
structure Backend where
  name : String
  receiptsTarget : String
  deriving Repr

def consensusGetReceiptsMethod : String := "consensus_getReceipts"
def receiptsTargetDebugGetRawReceipts : String := "debug_getRawReceipts"
def receiptsTargetAlchemyGetTransactionReceipts : String := "alchemy_getTransactionReceipts"
def receiptsTargetParityGetTransactionReceipts : String := "parity_getBlockReceipts"
def receiptsTargetEthGetTransactionReceipts : String := "eth_getBlockReceipts"

/-- The errors `doForward` returns. -/
inductive ForwardError where
  | rpc (e : RPCErr)
  | consensusGetReceiptsCantBeBatched
  | consensusGetReceiptsInvalidTarget
  | backendUnexpectedJSONRPC
  | other (msg : String)
  deriving DecidableEq, Repr

/-- What the backend's HTTP exchange gives: a transport error, or a status
    code and the body, parsed as JSON (`none` when it is not JSON). -/
inductive HttpOutcome where
  | transportError (msg : String)
  | response (status : Nat) (body : Option Json)

/-! ## Translating `consensus_getReceipts` -/

/-- `json.Unmarshal(rpcReq.Params, &reqParams)` into `[]rpc.BlockNumberOrHash`. -/
def unmarshalBlockNumberOrHashSlice : Option Json → Except String (List BlockNumberOrHash)
  | none => .error "unexpected end of JSON input"
  | some .null => .ok []
  | some (.arr es) => es.mapM BlockNumberOrHash.unmarshalJSON
  | some j => .error ("json: cannot unmarshal " ++ j.kind ++
      " into Go value of type []rpc.BlockNumberOrHash")

/-- `BlockHashOrNumberParameter`, printed with both fields (no `omitempty`). -/
def blockHashOrNumberParameter (blockHash : Option String) (blockNumber : Option Int64) : Json :=
  .obj [("blockHash", match blockHash with
          | some h => .str ("0x" ++ h)
          | none => .null),
        ("blockNumber", match blockNumber with
          | some bn => .str (BlockNumber.toString bn)
          | none => .null)]

/-- The params of the receipts target, built from the first decoded
    reference: a one-string array for the conventional targets (the hash is
    dereferenced when there is no number), a one-object array for Alchemy. -/
def translateReceiptsParams (target : String) (reqParams : List BlockNumberOrHash) :
    Except GoPanic (Option Json) :=
  if target = receiptsTargetDebugGetRawReceipts ∨ target = receiptsTargetEthGetTransactionReceipts ∨
      target = receiptsTargetParityGetTransactionReceipts then do
    let p0 ← sliceIndex reqParams 0
    match p0.blockNumber with
    | some bn => return some (.arr [.str (BlockNumber.toString bn)])
    | none =>
      let h ← deref p0.blockHash
      return some (.arr [.str ("0x" ++ h)])
  else if target = receiptsTargetAlchemyGetTransactionReceipts then do
    let p0 ← sliceIndex reqParams 0
    match p0.blockNumber with
    | some bn => return some (.arr [blockHashOrNumberParameter none (some bn)])
    | none => return some (.arr [blockHashOrNumberParameter p0.blockHash none])
  else return none

/-- The translation of one request of a non-batched call: the method is set
    to the target first, then the params decoded and rebuilt; the error, if
    any, ends the loop. -/
def translateReq (target : String) (rpcReq : RPCReq) :
    Except GoPanic (RPCReq × Option ForwardError) :=
  if rpcReq.method = consensusGetReceiptsMethod then
    let rpcReq := { rpcReq with method := target }
    match unmarshalBlockNumberOrHashSlice rpcReq.params with
    | .error _ => .ok (rpcReq, some (.rpc (errInvalidRequest "invalid request")))
    | .ok reqParams => do
      match ← translateReceiptsParams target reqParams with
      | some translatedParams => return ({ rpcReq with params := some translatedParams }, none)
      | none => return (rpcReq, some .consensusGetReceiptsInvalidTarget)
  else .ok (rpcReq, none)

/-- The translation loop over the requests of a non-batched call. -/
def translateReqs (target : String) : List RPCReq → Except GoPanic (List RPCReq × Option ForwardError)
  | [] => .ok ([], none)
  | r :: rs => do
    let (r, err) ← translateReq target r
    match err with
    | some e => return (r :: rs, some e)
    | none =>
      let (rs, err) ← translateReqs target rs
      return (r :: rs, err)

/-! ## Decoding the answer -/

/-- The key `string(r.ID)` of an ID; an absent ID is the empty text. -/
def idKey : Option Json → String
  | none => ""
  | some j => j.render

/-- `RPCErr` as `json.Unmarshal` fills it: `code` an `int`, `message` and
    `data` strings. -/
def unmarshalRPCErr : Json → Except String RPCErr
  | .obj ms => do
    let code ← match (foldMatches ms "code").getLast? with
      | none | some .null => .ok 0
      | some (.num lit) =>
        match lit.toInt? with
        | some c => .ok c
        | none => .error ("json: cannot unmarshal number " ++ lit ++
            " into Go struct field RPCErr.error.code of type int")
      | some v => .error ("json: cannot unmarshal " ++ v.kind ++
          " into Go struct field RPCErr.error.code of type int")
    let message ← decodeStringField "RPCErr.error.message" (foldMatches ms "message") ""
    let data ← decodeStringField "RPCErr.error.data" (foldMatches ms "data") ""
    return ⟨code, message, data, 0⟩
  | j => .error ("json: cannot unmarshal " ++ j.kind ++ " into Go value of type proxyd.RPCErr")

/-- `json.Unmarshal` into an `RPCRes`, whose fields have no tags: `Result`
    takes the last member as an `interface{}`, `ID` its raw text. -/
def unmarshalRPCRes : Json → Except String RPCRes
  | .null => .ok ⟨"", none, none, none⟩
  | .obj ms => do
    let jsonrpc ← decodeStringField "RPCRes.JSONRPC" (foldMatches ms "JSONRPC") ""
    let error ← decodePtrField unmarshalRPCErr (foldMatches ms "Error") none
    -- a number past the `float64` range in a result fails the decoding
    match badNumbers? (foldMatches ms "Result") with
    | some lit =>
      .error ("json: cannot unmarshal number " ++ lit ++
        " into Go struct field RPCRes.Result of type float64")
    | none =>
      let result := match (foldMatches ms "Result").getLast? with
        | none | some .null => none
        | some v => some v.goValue
      return ⟨jsonrpc, result, error, (foldMatches ms "ID").getLast?⟩
  | j => .error ("json: cannot unmarshal " ++ j.kind ++ " into Go value of type proxyd.RPCRes")

/-- `json.Unmarshal` into `[]*RPCRes`: a `null` element is a `nil` pointer. -/
def unmarshalRPCResSlice : Json → Except String (List (Option RPCRes))
  | .null => .ok []
  | .arr es => es.mapM fun
    | .null => .ok none
    | v => (unmarshalRPCRes v).map some
  | j => .error ("json: cannot unmarshal " ++ j.kind ++ " into Go value of type []*proxyd.RPCRes")

/-- The body as answers: one `RPCRes` for a single request, a list
    otherwise, where a lone object is an unexpected JSON-RPC answer. -/
def decodeBackendResponse (isSingleElementBatch : Bool) (body : Option Json) :
    Except ForwardError (List (Option RPCRes)) :=
  match body with
  | none => .error (.rpc errBackendBadResponse)
  | some j =>
    if isSingleElementBatch then
      match unmarshalRPCRes j with
      | .ok singleRes => .ok [some singleRes]
      | .error _ => .error (.rpc errBackendBadResponse)
    else
      match unmarshalRPCResSlice j with
      | .ok rpcRes => .ok rpcRes
      | .error _ =>
        match unmarshalRPCRes j with
        | .ok _ => .error .backendUnexpectedJSONRPC
        | .error _ => .error (.rpc errBackendBadResponse)

/-- `res.Error.HTTPErrorCode = status`, through the two pointers. -/
def setHTTPErrorCode (status : Nat) (res : Option RPCRes) : Except GoPanic RPCRes := do
  let r ← deref res
  let e ← deref r.error
  return { r with error := some { e with httpErrorCode := status } }

/-- The result of a translated request, wrapped as `ConsensusGetReceiptsResult`. -/
def consensusGetReceiptsResult (method : String) (result : Option Json) : Json :=
  .obj [("method", .str method), ("result", result.getD .null)]

/-- Enrich an answer with the method of the translated request of its ID. -/
def enrichResult (translated : List (String × String)) (res : RPCRes) : RPCRes :=
  match lastMember translated (idKey res.id) with
  | some method => { res with result := some (consensusGetReceiptsResult method res.result) }
  | none => res

/-- The position of each request ID; a repeated ID panics. -/
def requestPositions : List RPCReq → Nat → GoMap Nat → Except GoPanic (GoMap Nat)
  | [], _, pos => .ok pos
  | r :: rs, i, pos =>
    if (pos.get (idKey r.id)).isSome then .error ⟨"bug! detected requests with duplicate IDs"⟩
    else requestPositions rs (i + 1) (pos.set (idKey r.id) i)

/-- `sortBatchRPCResponse`: the answers in the order of their IDs' requests,
    an unknown ID counting as position `0`.  `sort.Slice` is not stable; on
    distinct positions every sort gives this order. -/
def sortBatchRPCResponse (req : List RPCReq) (res : List RPCRes) : Except GoPanic (List RPCRes) := do
  let pos ← requestPositions req 0 GoMap.empty
  let key := fun r : RPCRes => (pos.get (idKey r.id)).getD 0
  return res.insertionSort (fun a b => key a ≤ key b)

/-! ## `doForward` -/

/-- The requests the body of the exchange is marshalled from: those of a
    non-batched call as its translation loop leaves them. -/
def sentRequests (b : Backend) (rpcReqs : List RPCReq) (isBatch : Bool) : List RPCReq :=
  if isBatch then rpcReqs
  else
    match translateReqs b.receiptsTarget rpcReqs with
    | .ok (rpcReqs, _) => rpcReqs
    | .error _ => rpcReqs

@[simp] theorem sentRequests_batch (b : Backend) (rpcReqs : List RPCReq) :
    sentRequests b rpcReqs true = rpcReqs := rfl

/-- The answers of a successful exchange, from the decoded body on. -/
def processResponses (rpcReqs : List RPCReq) (translated : List (String × String)) (status : Nat)
    (rpcRes : List (Option RPCRes)) : Except GoPanic (Except ForwardError (List RPCRes)) :=
  if rpcReqs.length ≠ rpcRes.length then .ok (.error .backendUnexpectedJSONRPC)
  else do
    -- a status other than 200 is 400 here: every entry is taken for an error
    let rpcRes ← if status ≠ 200 then rpcRes.mapM (setHTTPErrorCode status) else rpcRes.mapM deref
    let rpcRes := rpcRes.map (enrichResult translated)
    let rpcRes ← sortBatchRPCResponse rpcReqs rpcRes
    return .ok rpcRes

/-- `Backend.doForward`: the requests as the translation left them, and the
    answers or the error. -/
def doForward (b : Backend) (rpcReqs : List RPCReq) (isBatch : Bool) (http : HttpOutcome) :
    Except GoPanic (List RPCReq × Except ForwardError (List RPCRes)) := do
  -- the translated requests by ID, with the method they are sent as
  let translated := if isBatch then []
    else (rpcReqs.filter (·.method = consensusGetReceiptsMethod)).map fun r =>
      (idKey r.id, b.receiptsTarget)
  let (rpcReqs, terr) ←
    if isBatch then
      if rpcReqs.any (·.method = consensusGetReceiptsMethod) then
        pure (rpcReqs, some ForwardError.consensusGetReceiptsCantBeBatched)
      else pure (rpcReqs, none)
    else translateReqs b.receiptsTarget rpcReqs
  match terr with
  | some e => return (rpcReqs, .error e)
  | none =>
    match http with
    | .transportError msg => return (rpcReqs, .error (.other ("error in backend request " ++ msg)))
    | .response status body => do
      let _ ← sliceIndex rpcReqs 0
      if status ≠ 200 ∧ status ≠ 400 then
        return (rpcReqs, .error (.other ("response code " ++ toString status)))
      else
        match decodeBackendResponse (rpcReqs.length = 1) body with
        | .error e => return (rpcReqs, .error e)
        | .ok rpcRes => return (rpcReqs, ← processResponses rpcReqs translated status rpcRes)

/-! ## Requests and answers that crash the run -/

/-- A `consensus_getReceipts` whose params hold no block reference passes the
    rewriter untouched, and its translation then indexes or dereferences
    what is not there; an empty filter list crashes the rewriter itself.
    Each panic happens before the backend is asked, whatever it would answer. -/
theorem doForward_consensusGetReceipts_missing_param (rctx : RewriteContext) (name : String)
    (http : HttpOutcome) :
    (rewriteRequest rctx ⟨"2.0", "consensus_getReceipts", some (.arr []), some (.num "1")⟩).map
        (·.result) = .ok .rewriteNone ∧
    doForward ⟨name, receiptsTargetDebugGetRawReceipts⟩
        [⟨"2.0", "consensus_getReceipts", some (.arr []), some (.num "1")⟩] false http =
      .error ⟨"runtime error: index out of range [0] with length 0"⟩ ∧
    doForward ⟨name, receiptsTargetDebugGetRawReceipts⟩
        [⟨"2.0", "consensus_getReceipts", some (.arr [.null]), some (.num "1")⟩] false http =
      .error nilDereference ∧
    (rewriteRequest rctx ⟨"2.0", "eth_getLogs", some (.arr []), some (.num "1")⟩).map (·.result) =
      .error ⟨"runtime error: index out of range [0] with length 0"⟩ :=
  ⟨rfl, rfl, rfl, rfl⟩

/-- A status-400 answer carrying a result and no error is dereferenced as
    an error: the run panics. -/
theorem doForward_status400_without_error (b : Backend) :
    doForward b [⟨"2.0", "eth_chainId", some (.arr []), some (.num "1")⟩] false
        (.response 400 (some (.obj [("jsonrpc", .str "2.0"), ("result", .str "0x1"), ("id", .num "1")]))) =
      .error nilDereference :=
  rfl

end Proxyd.Rpc
