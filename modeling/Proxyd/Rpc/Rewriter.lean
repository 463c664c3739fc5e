import Proxyd.Eth.BlockNumber
import Proxyd.Rpc.Types

/-
  Proxyd.Rpc.Rewriter

  The block-tag rewriter of `rewriter.go`.  `RewriteRequest` pins the block
  reference of a request to the consensus view `RewriteContext`: the tags
  `latest`, `safe` and `finalized` become the context's numbers, and an
  explicit number above `latest` is refused.  Three paths share the work:

    * `rewriteParam`, a positional parameter read as a string (`rewriteTag`)
      or as an EIP-1898 `BlockNumberOrHash` (`rewriteTagBlockNumberOrHash`);
    * `rewriteRange`, the `fromBlock`/`toBlock` of a filter object
      (`rewriteTagMap`), with the range check over `blockNumber`.

  The request is mutated in place in Go; here a rewrite returns the new
  `params` with the result and the error.  `rewriteRange` indexes the decoded
  params without a bound check, so it returns `Except GoPanic`.
-/

namespace Proxyd.Rpc

open Proxyd.Go Proxyd.Eth

/-- `RewriteContext`. -/
structure RewriteContext where
  latest : UInt64
  safe : UInt64
  finalized : UInt64
  maxBlockRange : UInt64
  deriving DecidableEq, Repr

/-- `RewriteResult`. -/
inductive RewriteResult where
  | rewriteNone
  | rewriteOverrideError
  | rewriteOverrideRequest
  | rewriteOverrideResponse
  deriving DecidableEq, Repr

/-- The errors a rewrite returns: the two sentinels `ErrRewriteBlockOutOfRange`
    and `ErrRewriteRangeTooLarge`, and any other error by its text. -/
inductive RewriteError where
  | blockOutOfRange
  | rangeTooLarge
  | other (msg : String)
  deriving DecidableEq, Repr

/-- The text of a rewrite error. -/
def RewriteError.error : RewriteError → String
  | .blockOutOfRange => "block is out of range"
  | .rangeTooLarge => "block range is too large"
  | .other msg => msg

/-- What a rewrite returns, with the request's `params` afterwards. -/
structure Rewrite where
  result : RewriteResult
  err : Option RewriteError
  params : Option Json
  deriving Repr

/-- Forwarding the request as it is. -/
def Rewrite.none (params : Option Json) : Rewrite := ⟨.rewriteNone, Option.none, params⟩

/-- Answering with an error, the request left as it is. -/
def Rewrite.error (e : RewriteError) (params : Option Json) : Rewrite :=
  ⟨.rewriteOverrideError, some e, params⟩

@[simp] theorem Rewrite.none_result (params : Option Json) :
    (Rewrite.none params).result = .rewriteNone := rfl
@[simp] theorem Rewrite.none_params (params : Option Json) : (Rewrite.none params).params = params :=
  rfl
@[simp] theorem Rewrite.error_result (e : RewriteError) (params : Option Json) :
    (Rewrite.error e params).result = .rewriteOverrideError := rfl
@[simp] theorem Rewrite.error_params (e : RewriteError) (params : Option Json) :
    (Rewrite.error e params).params = params := rfl

/-- `json.Unmarshal(req.Params, &p)` into `[]interface{}`; absent params are
    an empty input. -/
def unmarshalParams : Option Json → Except String (List Json)
  | Option.none => .error "unexpected end of JSON input"
  | some j => unmarshalSlice j

/-! ## Tags -/

/-- `remarshalBlockNumberOrHash`: print the `interface{}` value and decode it
    as a `BlockNumberOrHash`.  A value of `p` is the text it prints. -/
def remarshalBlockNumberOrHash (current : Json) : Except String BlockNumberOrHash :=
  BlockNumberOrHash.unmarshalJSON current

/-- `rewriteTag`: the string a block parameter becomes, and whether it changed. -/
def rewriteTag (rctx : RewriteContext) (current : String) : Except RewriteError (String × Bool) :=
  match remarshalBlockNumberOrHash (.str current) with
  | .error e => .error (.other e)
  | .ok bnh =>
    match bnh.blockNumber with
    -- a hash, not a block
    | Option.none => .ok (current, false)
    | some bn =>
      if bn = pendingBlockNumber ∨ bn = earliestBlockNumber then .ok (current, false)
      else if bn = finalizedBlockNumber then .ok (encodeUint64 rctx.finalized, true)
      else if bn = safeBlockNumber then .ok (encodeUint64 rctx.safe, true)
      else if bn = latestBlockNumber then .ok (encodeUint64 rctx.latest, true)
      else if bn > rctx.latest.toInt64 then .error .blockOutOfRange
      else .ok (current, false)

/-- `rewriteTagBlockNumberOrHash`: the same on a decoded `BlockNumberOrHash`;
    a tag becomes the context's number as an `int64`. -/
def rewriteTagBlockNumberOrHash (rctx : RewriteContext) (current : BlockNumberOrHash) :
    Except RewriteError (BlockNumberOrHash × Bool) :=
  match current.blockNumber with
  -- a hash, not a block number
  | Option.none => .ok (current, false)
  | some bn =>
    if bn = pendingBlockNumber ∨ bn = earliestBlockNumber then .ok (current, false)
    else if bn = finalizedBlockNumber then
      .ok (blockNumberOrHashWithNumber rctx.finalized.toInt64, true)
    else if bn = safeBlockNumber then .ok (blockNumberOrHashWithNumber rctx.safe.toInt64, true)
    else if bn = latestBlockNumber then .ok (blockNumberOrHashWithNumber rctx.latest.toInt64, true)
    else if bn > rctx.latest.toInt64 then .error .blockOutOfRange
    else .ok (current, false)

/-! ## Positional parameters -/

/-- The block parameter at `pos`, rewritten, with whether it changed: read as a
    `BlockNumberOrHash` with a fallback to a string, or as a string. -/
def rewriteBlockParam (rctx : RewriteContext) (blockNrOrHash : Bool) (cur : Json) :
    Except RewriteError (Json × Bool) :=
  if blockNrOrHash then
    match remarshalBlockNumberOrHash cur with
    | .error _ =>
      -- fallback to string
      match cur with
      | .str s => (rewriteTag rctx s).map fun r => (.str r.1, r.2)
      | _ => .error (.other "expected BlockNumberOrHash or string")
    | .ok bnh => (rewriteTagBlockNumberOrHash rctx bnh).map fun r => (r.1.toJson, r.2)
  else
    match cur with
    | .str s => (rewriteTag rctx s).map fun r => (.str r.1, r.2)
    | _ => .error (.other "expected string")

/-- `rewriteParam`: a missing optional parameter at `pos` is taken as
    `latest`; with fewer parameters nothing is rewritten. -/
def rewriteParam (rctx : RewriteContext) (params : Option Json) (pos : Nat)
    (required blockNrOrHash : Bool) : Rewrite :=
  match unmarshalParams params with
  | .error e => .error (.other e) params
  | .ok p =>
    let p := if p.length = pos ∧ required = false then p ++ [.str "latest"] else p
    -- `p[pos]` is missing exactly when `len(p) <= pos`
    match p[pos]? with
    | Option.none => .none params
    | some cur =>
      match rewriteBlockParam rctx blockNrOrHash cur with
      | .error e => .error e params
      | .ok (val, true) => ⟨.rewriteOverrideRequest, Option.none, some (.arr (p.set pos val))⟩
      | .ok (_, false) => .none params

/-! ## Filter ranges -/

/-- A decoded `map[string]interface{}`; `none` is a `nil` map. -/
abbrev FilterMap := Option (GoMap Json)

/-- `m[key]`: a missing key reads as `nil`, which is also what `null` decodes to. -/
def FilterMap.index (m : FilterMap) (key : String) : Json :=
  ((m.bind fun m => m.get key)).getD .null

/-- `m[key] = v`.  A `nil` map has no key, so the assignments of the rewriter,
    each made after reading a value at some key, never meet one. -/
def FilterMap.assign (m : FilterMap) (key : String) (v : Json) : FilterMap :=
  m.map fun m => m.set key v

theorem FilterMap.index_assign_self {m : FilterMap} (hm : m.isSome) (key : String) (v : Json) :
    (m.assign key v).index key = v := by
  obtain ⟨g, rfl⟩ := Option.isSome_iff_exists.mp hm
  simp [FilterMap.index, FilterMap.assign]

theorem FilterMap.index_assign_of_ne (m : FilterMap) {key k : String} (hk : k ≠ key) (v : Json) :
    (m.assign key v).index k = m.index k := by
  cases m with
  | none => rfl
  | some g => simp [FilterMap.index, FilterMap.assign, Ne.symm hk]

/-- A map with a value at a key is not `nil`. -/
theorem FilterMap.isSome_of_index_str {m : FilterMap} {key s : String}
    (h : m.index key = .str s) : m.isSome := by
  cases m with
  | none => simp [FilterMap.index] at h
  | some g => rfl

/-- `json.Unmarshal(req.Params, &p)` into `[]map[string]interface{}`: the
    first element that is not an object or `null`, or that holds a number
    past the `float64` range, is the error. -/
def unmarshalMapSlice : Option Json → Except String (List FilterMap)
  | Option.none => .error "unexpected end of JSON input"
  | some .null => .ok []
  | some (.arr es) =>
    es.mapM fun
      | .null => .ok Option.none
      | .obj ms =>
        match badMembers? ms with
        | some lit => .error (numberError lit)
        | Option.none => .ok (some (toGoMap (goMembers ms)))
      | j => .error ("json: cannot unmarshal " ++ j.kind ++
          " into Go value of type map[string]interface \x7b\x7d")
  | some j => .error ("json: cannot unmarshal " ++ j.kind ++
      " into Go value of type []map[string]interface \x7b\x7d")

/-- `json.Marshal` of a decoded map: `nil` prints as `null`, a map with its
    keys sorted. -/
def FilterMap.toJson : FilterMap → Json
  | Option.none => .null
  | some m => .obj (sortByKey m.entries)

/-- `rewriteTagMap`: rewrite the tag at `key`, unless it is `nil` or empty. -/
def rewriteTagMap (rctx : RewriteContext) (m : FilterMap) (key : String) :
    Except RewriteError (FilterMap × Bool) :=
  match m.index key with
  | .null => .ok (m, false)
  | .str "" => .ok (m, false)
  | .str current => do
    let (val, rw) ← rewriteTag rctx current
    if rw then return (m.assign key (.str val), true) else return (m, false)
  | _ => .error (.other "expected string")

/-- `blockNumber`: a bound as a number, after the tags were replaced;
    `pending` is one past `latest`, in `uint64` arithmetic. -/
def blockNumber (m : FilterMap) (key : String) (latest : UInt64) : Except RewriteError UInt64 :=
  match m.index key with
  | .str current =>
    if current = "earliest" then .ok 0
    else if current = "pending" then .ok (latest + 1)
    else (decodeUint64 current).mapError .other
  | _ => .error (.other "expected string")

/-- The range check of `rewriteRange`: `to - from` in `uint64` arithmetic. -/
def checkRange (rctx : RewriteContext) (m : FilterMap) : Except RewriteError Unit := do
  let fromBlock ← blockNumber m "fromBlock" rctx.latest
  let toBlock ← blockNumber m "toBlock" rctx.latest
  if toBlock - fromBlock > rctx.maxBlockRange then .error .rangeTooLarge else return ()

/-- `_, hasKey := m[key]`. -/
def FilterMap.has (m : FilterMap) (key : String) : Bool :=
  (m.bind fun m => m.get key).isSome

/-- If either bound is set, the other defaults to `latest`. -/
def defaultRange (m : FilterMap) : FilterMap :=
  if m.has "fromBlock" ∧ ¬m.has "toBlock" then m.assign "toBlock" (.str "latest")
  else if m.has "toBlock" ∧ ¬m.has "fromBlock" then m.assign "fromBlock" (.str "latest")
  else m

/-- The work of `rewriteRange` on the filter object after the defaulting:
    both bounds rewritten, then the range checked when `maxBlockRange > 0`
    and the request set a bound (`hasRange`); with whether a bound changed. -/
def rewriteRangeMap (rctx : RewriteContext) (hasRange : Bool) (m : FilterMap) :
    Except RewriteError (FilterMap × Bool) := do
  let (m, modifiedFrom) ← rewriteTagMap rctx m "fromBlock"
  let (m, modifiedTo) ← rewriteTagMap rctx m "toBlock"
  if rctx.maxBlockRange > 0 ∧ hasRange = true then checkRange rctx m
  return (m, modifiedFrom || modifiedTo)

/-- `rewriteRange`: default a missing bound, rewrite both bounds, check the
    range, and re-marshal the params if a bound changed.  `p[pos]` panics
    when the params have no element there. -/
def rewriteRange (rctx : RewriteContext) (params : Option Json) (pos : Nat) :
    Except GoPanic Rewrite :=
  match unmarshalMapSlice params with
  | .error e => .ok (.error (.other e) params)
  | .ok p => do
    let m ← sliceIndex p pos
    match rewriteRangeMap rctx (m.has "fromBlock" || m.has "toBlock") (defaultRange m) with
    | .error e => return .error e params
    | .ok (m, true) =>
      return ⟨.rewriteOverrideRequest, Option.none, some (.arr ((p.set pos m).map FilterMap.toJson))⟩
    | .ok (_, false) => return .none params

/-! ## Dispatch -/

/-- `RewriteRequest`: the rewrite each method's block reference gets. -/
def rewriteRequest (rctx : RewriteContext) (req : RPCReq) : Except GoPanic Rewrite :=
  match req.method with
  | "eth_getLogs" | "eth_newFilter" => rewriteRange rctx req.params 0
  | "debug_getRawReceipts" | "consensus_getReceipts" => .ok (rewriteParam rctx req.params 0 true false)
  | "eth_getBalance" | "eth_getCode" | "eth_getTransactionCount" | "eth_call" =>
    .ok (rewriteParam rctx req.params 1 false true)
  | "eth_getStorageAt" | "eth_getProof" => .ok (rewriteParam rctx req.params 2 false true)
  | "eth_getBlockTransactionCountByNumber" | "eth_getUncleCountByBlockNumber"
  | "eth_getBlockByNumber" | "eth_getTransactionByBlockNumberAndIndex"
  | "eth_getUncleByBlockNumberAndIndex" => .ok (rewriteParam rctx req.params 0 false false)
  | _ => .ok (.none req.params)

/-- `RewriteResponse`: `eth_blockNumber` is answered with the context's
    `latest`, without calling a backend. -/
def rewriteResponse (rctx : RewriteContext) (req : RPCReq) : RewriteResult × Option Json :=
  if req.method = "eth_blockNumber" then (.rewriteOverrideResponse, some (.str (encodeUint64 rctx.latest)))
  else (.rewriteNone, Option.none)

/-- `RewriteTags`: the response rewrite first, then the request rewrite; the
    second component is the overridden response's result. -/
def rewriteTags (rctx : RewriteContext) (req : RPCReq) : Except GoPanic (Rewrite × Option Json) :=
  match rewriteResponse rctx req with
  | (.rewriteOverrideResponse, result) => .ok (⟨.rewriteOverrideResponse, Option.none, req.params⟩, result)
  | _ => (rewriteRequest rctx req).map fun rw => (rw, Option.none)

end Proxyd.Rpc
