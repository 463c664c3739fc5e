import Proxyd.Rpc.Forward

/-
  Proxyd.Rpc.Batch

  The batch path of `server.go` and `backend.go`: `Server.handleBatchRPC`
  and the forwarding of one minibatch below it.

    * `handleBatchRPC` first answers what it can itself: parse and
      validation errors, `eth_accounts`, `eth_call` overrides, methods no
      mapping whitelists, rate limits.  Every other request joins a batch
      keyed by its backend group and its ID's generation (the how-many-th
      request with that ID it is), so that no batch holds an ID twice.
      Then, batch by batch in the map's range order, cache hits are
      answered, the misses are cut into minibatches of at most
      `maxUpstreamBatchSize`, and each minibatch's answers are written back
      at the indices of its requests.
    * `BackendGroup.Forward` answers the requests the consensus view pins
      itself (`OverwriteConsensusResponses`), sends the others to the first
      backend that serves them (`ForwardRequestToBackendGroup`, each backend
      retrying in `Backend.Forward`), and inserts its own answers back at
      their positions (`OverrideResponses`).

  The server's configuration and services are parameters: the method
  mappings of the request's origin, the limiters (asked by request index,
  since they keep state), the `eth_call` override rules as the answer they
  give, the cache as a state with its get and put, the backend groups, and
  each backend's HTTP exchange.  The context deadline is an oracle asked
  before each minibatch.  Metrics, logs and the `servedBy` text are left out.
-/

namespace Proxyd.Rpc

open Proxyd.Go

/-! ## Errors and local answers -/

/-- `proxydHealthzMethod`. -/
def proxydHealthzMethod : String := "proxyd_healthz"

/-- `emptyArrayResponse`, the answer to `eth_accounts`. -/
def emptyArrayResponse : Json := .arr []

/-- `ErrOverRateLimit`. -/
def errOverRateLimit : RPCErr := ⟨-32000 - 16, "over rate limit", "", 429⟩

/-- `ErrNoBackends`. -/
def errNoBackends : RPCErr := ⟨-32000 - 11, "no backend is currently healthy to serve traffic", "", 503⟩

/-- The text `err.Error()` of a forwarding error. -/
def ForwardError.error : ForwardError → String
  | .rpc e => e.message
  | .consensusGetReceiptsCantBeBatched => "consensus_getReceipts cannot be batched"
  | .consensusGetReceiptsInvalidTarget => "unsupported consensus_receipts_target"
  | .backendUnexpectedJSONRPC => "backend returned an unexpected JSON-RPC response"
  | .other msg => msg

/-- The `RPCErr` that `NewRPCErrorRes` answers an error with: an `*RPCErr`
    as it is, any other error as an internal error carrying its text. -/
def ForwardError.toRPCErr : ForwardError → RPCErr
  | .rpc e => e
  | e => ⟨-32000, e.error, "", 0⟩

/-- The two `consensus_getReceipts` errors, which end a whole batch. -/
def ForwardError.isConsensusGetReceipts (e : ForwardError) : Bool :=
  e = .consensusGetReceiptsCantBeBatched || e = .consensusGetReceiptsInvalidTarget

/-- `IsValidID`, on the raw text of the ID: a quoted string must hold
    something, anything else must be there and not open an object or an
    array. -/
def isValidID (id : String) : Bool :=
  -- `'\x22'` is the double quote
  if id.toList.head? = some '\x22' && id.toList.getLast? = some '\x22' then
    decide (2 < id.utf8ByteSize)
  else decide (0 < id.utf8ByteSize) && id.toList.head? != some '\x7b' && id.toList.head? != some '['

/-- `ValidateRPCReq`. -/
def validateRPCReq (req : RPCReq) : Option RPCErr :=
  if req.jsonrpc ≠ jsonRPCVersion then some (errInvalidRequest "invalid JSON-RPC version")
  else if req.method = "" then some (errInvalidRequest "no method specified")
  else if !isValidID (idKey req.id) then some (errInvalidRequest "invalid ID")
  else none

/-! ## Forwarding to a backend group -/

/-- A `*Backend` of a group: the fields `doForward` reads, `maxRetries`, and
    the HTTP exchange it answers for each attempt and the requests sent. -/
structure Upstream where
  backend : Backend
  maxRetries : Nat
  exchange : Nat → List RPCReq → HttpOutcome

/-- The errors `Backend.Forward` returns at once, without another attempt. -/
def ForwardError.final (e : ForwardError) : Bool :=
  e.isConsensusGetReceipts || e = .backendUnexpectedJSONRPC

/-- One attempt of `Backend.Forward`. -/
def Upstream.attempt (u : Upstream) (isBatch : Bool) (i : Nat) (reqs : List RPCReq) :
    Except GoPanic (List RPCReq × Except ForwardError (List RPCRes)) := do
  -- `reqs[0].Method` labels the metrics
  let _ ← sliceIndex reqs 0
  -- the backend answers the body marshalled from the translated requests
  doForward u.backend reqs isBatch (u.exchange i (sentRequests u.backend reqs isBatch))

/-- What `Backend.Forward` makes of an attempt: an answer or a final error
    ends the loop, any other error goes to `retry`. -/
def afterAttempt (retry : ForwardError → List RPCReq →
      Except GoPanic (List RPCReq × Except ForwardError (List RPCRes))) :
    List RPCReq × Except ForwardError (List RPCRes) →
      Except GoPanic (List RPCReq × Except ForwardError (List RPCRes))
  | (reqs, .ok rpcRes) => .ok (reqs, .ok rpcRes)
  | (reqs, .error e) => if e.final then .ok (reqs, .error e) else retry e reqs

/-- `Backend.Forward` from attempt `i`, with `retries` attempts left after
    it: the last error is wrapped.  The requests go on as the translation of
    each attempt left them. -/
def Upstream.forwardFrom (u : Upstream) (isBatch : Bool) :
    Nat → Nat → List RPCReq → Except GoPanic (List RPCReq × Except ForwardError (List RPCRes))
  | i, 0, reqs =>
    u.attempt isBatch i reqs >>= afterAttempt fun e reqs =>
      .ok (reqs, .error (.other ("permanent error forwarding request " ++ e.error)))
  | i, retries + 1, reqs =>
    u.attempt isBatch i reqs >>= afterAttempt fun _ reqs => u.forwardFrom isBatch (i + 1) retries reqs

/-- `Backend.Forward`: `maxRetries + 1` attempts. -/
def Upstream.forward (u : Upstream) (isBatch : Bool) (reqs : List RPCReq) :
    Except GoPanic (List RPCReq × Except ForwardError (List RPCRes)) :=
  u.forwardFrom isBatch 0 u.maxRetries reqs

/-- The errors after which `ForwardRequestToBackendGroup` tries no other backend. -/
def ForwardError.stopsGroup (e : ForwardError) : Bool :=
  e.isConsensusGetReceipts || e = .rpc errMethodNotWhitelisted

/-- `ForwardRequestToBackendGroup`: the backends in turn until one answers;
    each is sent the requests as the one before left them. -/
def forwardRequestToBackendGroup (isBatch : Bool) :
    List Upstream → List RPCReq → Except GoPanic (Except ForwardError (List RPCRes))
  | [], _ => .ok (.error (.rpc errNoBackends))
  | u :: us, rpcReqs =>
    if 0 < rpcReqs.length then do
      let (rpcReqs, res) ← u.forward isBatch rpcReqs
      match res with
      | .ok rpcRes => return .ok rpcRes
      | .error e =>
        if e.stopsGroup then return .error e
        else forwardRequestToBackendGroup isBatch us rpcReqs
    else return .ok []

/-- `indexedReqRes`: an answer made by the group, with its request's index. -/
structure IndexedReqRes where
  index : Nat
  req : RPCReq
  res : RPCRes

/-- The error an override answers with: the rewriter's two sentinels have
    their own, any other error is a parse error. -/
def rewriteErrorRPCErr (rctx : RewriteContext) : Option RewriteError → RPCErr
  | some .blockOutOfRange => errBlockOutOfRange
  | some .rangeTooLarge =>
    errInvalidParams ("block range greater than " ++ toString rctx.maxBlockRange ++ " max")
  | _ => errParseErr

/-- `OverwriteConsensusResponses` from request `i` on: the requests the
    rewrite answers go to the overridden responses with their index, the
    others on with their rewritten params. -/
def overwriteConsensusResponses (rctx : RewriteContext) :
    Nat → List RPCReq → Except GoPanic (List RPCReq × List IndexedReqRes)
  | _, [] => .ok ([], [])
  | i, req :: reqs => do
    let (rw, result) ← rewriteTags rctx req
    let req := { req with params := rw.params }
    let res : RPCRes := ⟨jsonRPCVersion, result, none, req.id⟩
    let (rewritten, overridden) ← overwriteConsensusResponses rctx (i + 1) reqs
    match rw.result with
    | .rewriteOverrideError =>
      return (rewritten, ⟨i, req, { res with error := some (rewriteErrorRPCErr rctx rw.err) }⟩ :: overridden)
    | .rewriteOverrideResponse => return (rewritten, ⟨i, req, res⟩ :: overridden)
    | .rewriteOverrideRequest | .rewriteNone => return (req :: rewritten, overridden)

/-- `OverrideResponses`: each overridden answer inserted at its index, or
    appended while there is no answer yet.  An index past the length panics,
    in `res[:i]` when it is also past the slice's capacity and in `res[i:]`
    otherwise; the model keeps no capacity, so its panic names the kind of
    the failure and not the bounds Go prints after it. -/
def overrideResponses : List RPCRes → List IndexedReqRes → Except GoPanic (List RPCRes)
  | res, [] => .ok res
  | res, ov :: ovs =>
    if 0 < res.length then
      if ov.index ≤ res.length then overrideResponses (res.take ov.index ++ ov.res :: res.drop ov.index) ovs
      else .error ⟨"runtime error: slice bounds out of range"⟩
    else overrideResponses (res ++ [ov.res]) ovs

/-- What `BackendGroup.Forward` reads of a group: its backends in the order
    `orderedBackendsForRequest` gives them, the consensus view when the
    routing is consensus-aware, and what `ExecuteMulticall` answers when
    the routing strategy is `multicall`. -/
structure BackendGroup where
  backends : List Upstream
  consensus : Option RewriteContext
  multicall : Option (List RPCReq → Except ForwardError (List RPCRes))

/-- `isValidMulticallTx`. -/
def isValidMulticallTx : List RPCReq → Bool
  | [r] => r.method = "eth_sendRawTransaction" || r.method = "eth_sendBundle"
  | _ => false

/-- `BackendGroup.Forward`. -/
def BackendGroup.forward (bg : BackendGroup) (rpcReqs : List RPCReq) (isBatch : Bool) :
    Except GoPanic (Except ForwardError (List RPCRes)) :=
  if rpcReqs.length = 0 then .ok (.ok [])
  else do
    let (rpcReqs, overriddenResponses) ← match bg.consensus with
      | some rctx => overwriteConsensusResponses rctx 0 rpcReqs
      | none => pure (rpcReqs, [])
    match bg.multicall, isValidMulticallTx rpcReqs && !isBatch with
    | some executeMulticall, true => return executeMulticall rpcReqs
    | _, _ =>
      match ← forwardRequestToBackendGroup isBatch bg.backends rpcReqs with
      | .error e => return .error e
      | .ok res => return .ok (← overrideResponses res overriddenResponses)

/-! ## `handleBatchRPC` -/

/-- The cache as `handleBatchRPC` uses it: a state, the result a request
    finds in it, and the state after an answer is put. -/
structure RPCCache (σ : Type) where
  getRPC : σ → RPCReq → Option Json
  putRPC : σ → RPCReq → RPCRes → σ

/-- What `handleBatchRPC` reads of the `Server`: the method mappings of the
    request's origin, the sender limiter (asked by request index) when
    there is one, the answer of the `eth_call` override rules, the cache,
    the backend groups, and `maxUpstreamBatchSize`, which `NewServer` makes
    positive. -/
structure Server (σ : Type) where
  rpcMethodMappings : String → String
  senderLim : Option (Nat → RPCReq → Option RPCErr)
  checkEthCallOverride : RPCReq → Option Json
  cache : RPCCache σ
  backendGroups : String → Option BackendGroup
  maxUpstreamBatchSize : Nat
  maxUpstreamBatchSize_pos : 0 < maxUpstreamBatchSize

/-- `batchGroup`. -/
structure BatchGroup where
  groupID : Nat
  backendGroup : String
  deriving DecidableEq, Repr

/-- `batchElem`. -/
structure BatchElem where
  req : RPCReq
  index : Nat

/-- What the first loop does with one request. -/
inductive Triage where
  /-- the early return of a lone health check -/
  | healthz (res : RPCRes)
  /-- answered by the server itself -/
  | answer (res : RPCRes)
  /-- forwarded to the backend group the method maps to -/
  | forward (req : RPCReq) (group : String)

variable {σ : Type} (s : Server σ)

/-- The body of the first loop for request `i` of `n`, up to the batching. -/
def triage (isLimited : Nat → String → Bool) (n i : Nat) (raw : Option Json) : Triage :=
  match parseRPCReq raw with
  | .error err => .answer (newRPCErrorRes none err)
  | .ok parsedReq =>
    if n = 1 ∧ parsedReq.method = proxydHealthzMethod then
      .healthz ⟨jsonRPCVersion, some (.str "OK"), none, parsedReq.id⟩
    else
      match validateRPCReq parsedReq with
      | some err => .answer (newRPCErrorRes none err)
      | none =>
        let override := if parsedReq.method = "eth_call" then s.checkEthCallOverride parsedReq else none
        let group := s.rpcMethodMappings parsedReq.method
        let senderErr := if parsedReq.method = "eth_sendRawTransaction" then
          s.senderLim.bind fun lim => lim i parsedReq else none
        if parsedReq.method = "eth_accounts" then .answer (newRPCRes parsedReq.id emptyArrayResponse)
        else if let some result := override then .answer (newRPCRes parsedReq.id result)
        else if group = "" then .answer (newRPCErrorRes parsedReq.id errMethodNotWhitelisted)
        else if isLimited i parsedReq.method then .answer (newRPCErrorRes parsedReq.id errOverRateLimit)
        else if let some err := senderErr then .answer (newRPCErrorRes parsedReq.id err)
        else .forward parsedReq group

/-- `batches[g] = append(batches[g], e)`, the map kept as its entries in the
    order their keys were first assigned. -/
def appendBatch (g : BatchGroup) (e : BatchElem) :
    List (BatchGroup × List BatchElem) → List (BatchGroup × List BatchElem)
  | [] => [(g, [e])]
  | (g', es) :: bs => if g' = g then (g', es ++ [e]) :: bs else (g', es) :: appendBatch g e bs

/-- `batches[g]`: the batch of a key, empty when the key is absent. -/
def batchOf (batches : List (BatchGroup × List BatchElem)) (g : BatchGroup) : List BatchElem :=
  ((batches.find? (·.1 = g)).map Prod.snd).getD []

/-- What the first loop leaves: the health check's early answer, or the
    responses made so far and the batches. -/
inductive FirstPass where
  | healthz (res : RPCRes)
  | batches (responses : List (Option RPCRes)) (batches : List (BatchGroup × List BatchElem))

/-- The first loop from request `i` on, with the responses so far, the count
    `ids` of each ID forwarded so far, and the batches. -/
def groupRequests (isLimited : Nat → String → Bool) (n : Nat) :
    Nat → List (Option Json) → List (Option RPCRes) → GoMap Nat →
      List (BatchGroup × List BatchElem) → FirstPass
  | _, [], responses, _, batches => .batches responses batches
  | i, raw :: raws, responses, ids, batches =>
    match triage s isLimited n i raw with
    | .healthz res => .healthz res
    | .answer res => groupRequests isLimited n (i + 1) raws (responses.set i (some res)) ids batches
    | .forward req group =>
      -- a repeated ID moves the request to the next generation's batch
      let id := idKey req.id
      let batchGroupID := (ids.get id).getD 0 + 1
      groupRequests isLimited n (i + 1) raws responses (ids.set id batchGroupID)
        (appendBatch ⟨batchGroupID, group⟩ ⟨req, i⟩ batches)

/-- The cache lookups of one batch: a hit is answered at its index, the
    misses are kept in order. -/
def lookupBatch (c : σ) :
    List BatchElem → List (Option RPCRes) → Bool → List BatchElem →
      List (Option RPCRes) × Bool × List BatchElem
  | [], responses, cached, cacheMisses => (responses, cached, cacheMisses)
  | e :: es, responses, cached, cacheMisses =>
    match s.cache.getRPC c e.req with
    | some result =>
      lookupBatch c es (responses.set e.index (some ⟨e.req.jsonrpc, some result, none, e.req.id⟩))
        true cacheMisses
    | none => lookupBatch c es responses cached (cacheMisses ++ [e])

/-- The answers of a minibatch: what its group's `Forward` answered, or one
    error answer per request; the `consensus_getReceipts` errors end the
    handler instead. -/
def minibatchAnswers (elems : List BatchElem) :
    Except ForwardError (List RPCRes) → Except ForwardError (List RPCRes)
  | .ok res => .ok res
  | .error e =>
    if e.isConsensusGetReceipts then .error e
    else .ok (elems.map fun elem => newRPCErrorRes elem.req.id e.toRPCErr)

/-- The loop over a minibatch's answers from `k` on: `responses[elems[k].Index] = res[k]`,
    and an answer with a result and no error is put in the cache. -/
def assignResponses (res : List RPCRes) :
    Nat → List BatchElem → σ → List (Option RPCRes) → Except GoPanic (σ × List (Option RPCRes))
  | _, [], c, responses => .ok (c, responses)
  | k, e :: es, c, responses => do
    let r ← sliceIndex res k
    let c := if r.error.isNone && r.result.isSome then s.cache.putRPC c e.req r else c
    assignResponses res (k + 1) es c (responses.set e.index (some r))

/-- `numBatches`: `⌈len / maxUpstreamBatchSize⌉`. -/
def numBatches (len : Nat) : Nat :=
  (len + s.maxUpstreamBatchSize - 1) / s.maxUpstreamBatchSize

/-- The errors that end `handleBatchRPC`. -/
inductive BatchError where
  | deadlineExceeded
  | forward (e : ForwardError)
  deriving DecidableEq, Repr

/-- The minibatch loop of one batch from minibatch `i`, with `left` to go:
    `cacheMisses[i*max : min(i*max+max, len)]` is forwarded to the batch's
    backend group and its answers written back. -/
def forwardMinibatches (backendGroup : String) (isBatch : Bool) (deadline : Nat → Bool)
    (cacheMisses : List BatchElem) :
    Nat → Nat → σ → List (Option RPCRes) → Except GoPanic (Except BatchError (σ × List (Option RPCRes)))
  | _, 0, c, responses => .ok (.ok (c, responses))
  | i, left + 1, c, responses =>
    if deadline i then .ok (.error .deadlineExceeded)
    else do
      let start := i * s.maxUpstreamBatchSize
      let stop := min (start + s.maxUpstreamBatchSize) cacheMisses.length
      let elems := (cacheMisses.drop start).take (stop - start)
      -- a mapping to a group the server lacks calls `Forward` on `nil`
      let bg ← deref (s.backendGroups backendGroup)
      match minibatchAnswers elems (← bg.forward (elems.map (·.req)) isBatch) with
      | .error e => return .error (.forward e)
      | .ok res =>
        let (c, responses) ← assignResponses s res 0 elems c responses
        forwardMinibatches backendGroup isBatch deadline cacheMisses (i + 1) left c responses

/-- The loop over the batches in range order, with the cache state, the
    responses and whether any answer came from the cache. -/
def forwardBatches (isBatch : Bool) (deadline : BatchGroup → Nat → Bool) :
    List (BatchGroup × List BatchElem) → σ → List (Option RPCRes) → Bool →
      Except GoPanic (Except BatchError (List (Option RPCRes) × Bool))
  | [], _, responses, cached => .ok (.ok (responses, cached))
  | (group, batch) :: gs, c, responses, cached => do
    let (responses, cached, cacheMisses) := lookupBatch s c batch responses cached []
    match ← forwardMinibatches s group.backendGroup isBatch (deadline group) cacheMisses 0
        (numBatches s cacheMisses.length) c responses with
    | .error e => return .error e
    | .ok (c, responses) => forwardBatches isBatch deadline gs c responses cached

/-- `Server.handleBatchRPC`: the responses, one per request, and whether any
    came from the cache; or the error that ends the batch. -/
def handleBatchRPC (c : σ) (range : MapRange BatchGroup) (deadline : BatchGroup → Nat → Bool)
    (reqs : List (Option Json)) (isLimited : Nat → String → Bool) (isBatch : Bool) :
    Except GoPanic (Except BatchError (List (Option RPCRes) × Bool)) :=
  match groupRequests s isLimited reqs.length 0 reqs (List.replicate reqs.length none) GoMap.empty [] with
  | .healthz res => .ok (.ok ([some res], false))
  | .batches responses batches =>
    forwardBatches s isBatch deadline
      ((range.order (batches.map Prod.fst)).map fun g => (g, batchOf batches g)) c responses false

/-! ## Batches that end without their responses -/

/-- What the echo backend answers a request: a result, under the request's
    ID when it has one. -/
def echoAnswer (r : RPCReq) : Json :=
  .obj ([("jsonrpc", .str "2.0")] ++ (r.id.map fun id => ("id", id)).toList ++ [("result", .str "0x1")])

/-- A backend that answers every request with its own ID: a lone answer to a
    lone request, the answers in reverse order to a batch. -/
def echoBackend : Upstream where
  backend := ⟨"echo", receiptsTargetDebugGetRawReceipts⟩
  maxRetries := 0
  exchange := fun _ reqs => .response 200 (some (match reqs with
    | [r] => echoAnswer r
    | rs => .arr (rs.reverse.map echoAnswer)))

/-- A server that maps every method to one group, served by the echo
    backend, with or without a consensus view. -/
def echoServer (consensus : Option RewriteContext) : Server Unit where
  rpcMethodMappings := fun _ => "main"
  senderLim := none
  checkEthCallOverride := fun _ => none
  cache := ⟨fun _ _ => none, fun c _ _ => c⟩
  backendGroups := fun g => if g = "main" then some ⟨[echoBackend], consensus, none⟩ else none
  maxUpstreamBatchSize := 10
  maxUpstreamBatchSize_pos := by decide

/-- The range that visits the keys in the order they were first assigned. -/
def insertionRange : MapRange BatchGroup := ⟨id, fun _ => List.Perm.refl _⟩

/-- A request as the client sends it. -/
def clientRequest (id : String) (method : String) (params : List Json) : Option Json :=
  some (.obj [("jsonrpc", .str "2.0"), ("id", .num id), ("method", .str method), ("params", .arr params)])

end Proxyd.Rpc
