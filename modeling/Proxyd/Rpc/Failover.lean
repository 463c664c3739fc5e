import Proxyd.Rpc.Batch
import Proxyd.Lib.Except

/-
  Proxyd.Rpc.Failover

  What an attempt of `Backend.doForward` leaves behind for the attempts
  after it.  The translation of a non-batched `consensus_getReceipts`
  rewrites the caller's `*RPCReq` in place, method first, before the
  exchange, and nothing undoes it when the exchange fails:

    * a failed attempt hands back the request as the translation left it,
      whatever the backend answered (`doForward_transportError`);
    * a request that is no longer a `consensus_getReceipts` is forwarded as
      in a batch, with nothing translated and nothing wrapped
      (`doForward_of_forall_ne`);

  together, every attempt after a failed one forwards the first backend's
  translation untranslated (`doForward_retry_untranslated`).

  So the retry inside `Backend.Forward` and the next backend of
  `ForwardRequestToBackendGroup` are sent the first backend's target method
  with its parameters, and their answer is returned unwrapped.
-/

namespace Proxyd.Rpc

open Proxyd.Go Proxyd.Lib

/-! ## The translation of one attempt -/

theorem translateReq_of_ne (target : String) {req : RPCReq} (h : req.method ≠ consensusGetReceiptsMethod) :
    translateReq target req = .ok (req, none) := by
  simp [translateReq, h]

theorem translateReqs_of_forall_ne (target : String) :
    ∀ {reqs : List RPCReq}, (∀ r ∈ reqs, r.method ≠ consensusGetReceiptsMethod) →
      translateReqs target reqs = .ok (reqs, none)
  | [], _ => rfl
  | r :: rs, h => by
    have hr := translateReq_of_ne target (h r List.mem_cons_self)
    have hrs := translateReqs_of_forall_ne target fun r' hr' => h r' (List.mem_cons_of_mem _ hr')
    simp [translateReqs, hr, hrs]

/-- The method a translated request is left with is the target's. -/
theorem translateReq_method {target : String} {req req' : RPCReq} {err : Option ForwardError}
    (h : translateReq target req = .ok (req', err)) (hm : req.method = consensusGetReceiptsMethod) :
    req'.method = target := by
  simp only [translateReq, hm, if_true] at h
  split at h
  · cases h
    rfl
  · obtain ⟨p, -, h⟩ := except_bind_eq_ok.mp h
    split at h <;> cases h <;> rfl

/-- A requests list with no `consensus_getReceipts` left is forwarded alone
    exactly as in a batch: nothing is translated, and no answer wrapped. -/
theorem doForward_of_forall_ne (b : Backend) {reqs : List RPCReq} (http : HttpOutcome)
    (h : ∀ r ∈ reqs, r.method ≠ consensusGetReceiptsMethod) :
    doForward b reqs false http = doForward b reqs true http := by
  have hfilter : reqs.filter (·.method = consensusGetReceiptsMethod) = [] :=
    List.filter_eq_nil_iff.mpr fun r hr => by simpa using h r hr
  have hany : (reqs.any fun r => decide (r.method = consensusGetReceiptsMethod)) = false := by
    simpa using h
  simp [doForward, hfilter, hany, translateReqs_of_forall_ne b.receiptsTarget h]

/-- A failed exchange hands back the requests as the translation left them. -/
theorem doForward_transportError (b : Backend) (reqs : List RPCReq) (msg : String) :
    doForward b reqs false (.transportError msg) =
      (translateReqs b.receiptsTarget reqs).map fun t =>
        (t.1, .error (t.2.getD (.other ("error in backend request " ++ msg)))) := by
  simp only [doForward, Bool.false_eq_true, if_false]
  cases translateReqs b.receiptsTarget reqs with
  | error e => rfl
  | ok t =>
    obtain ⟨reqs', terr⟩ := t
    cases terr <;> rfl

theorem translateReqs_singleton (target : String) (req : RPCReq) :
    translateReqs target [req] = (translateReq target req).map fun t => ([t.1], t.2) := by
  cases h : translateReq target req with
  | error e => simp [translateReqs, h, Except.map]
  | ok t =>
    obtain ⟨r, err⟩ := t
    cases err <;> simp [translateReqs, h, Except.map]

/-- A failed attempt at a non-batched `consensus_getReceipts` hands back the
    request under the backend's target method, and every later attempt with
    it, at this backend or any other, forwards it as a batch would: nothing is
    translated for the later backend, and its answer is not wrapped. -/
theorem doForward_retry_untranslated (b b' : Backend) {req req' : RPCReq} {msg : String}
    {res : Except ForwardError (List RPCRes)} (hm : req.method = consensusGetReceiptsMethod)
    (ht : b.receiptsTarget ≠ consensusGetReceiptsMethod)
    (h : doForward b [req] false (.transportError msg) = .ok ([req'], res)) (http : HttpOutcome) :
    req'.method = b.receiptsTarget ∧ doForward b' [req'] false http = doForward b' [req'] true http := by
  rw [doForward_transportError, translateReqs_singleton] at h
  obtain ⟨t, ht1, hr⟩ := except_map_eq_ok.mp h
  obtain ⟨⟨r, err⟩, htr, rfl⟩ := except_map_eq_ok.mp ht1
  -- the request handed back is the translated one
  have hrr : r = req' := by simpa using congrArg Prod.fst hr
  subst hrr
  have hmethod : r.method = b.receiptsTarget := translateReq_method htr hm
  refine ⟨hmethod, doForward_of_forall_ne b' http ?_⟩
  intro r' hr'
  rw [List.mem_singleton.mp hr', hmethod]
  exact ht

/-! ## Receipts after a failed attempt -/

/-- What the echo backends answer: the method and the params they were sent. -/
def echoMethodParams (reqs : List RPCReq) : Json :=
  match reqs with
  | r :: _ => .obj [("jsonrpc", .str "2.0"), ("id", r.id.getD .null),
      ("result", .arr [.str r.method, r.params.getD .null])]
  | [] => .null

/-- A `debug_getRawReceipts` backend whose first exchange fails, retried once. -/
def flakyUpstream : Upstream where
  backend := ⟨"flaky", receiptsTargetDebugGetRawReceipts⟩
  maxRetries := 1
  exchange := fun i reqs =>
    if i = 0 then .transportError "connection reset" else .response 200 (some (echoMethodParams reqs))

/-- A `debug_getRawReceipts` backend that is down, not retried. -/
def downUpstream : Upstream where
  backend := ⟨"down", receiptsTargetDebugGetRawReceipts⟩
  maxRetries := 0
  exchange := fun _ _ => .transportError "connection refused"

/-- An `alchemy_getTransactionReceipts` backend that answers every exchange. -/
def alchemyUpstream : Upstream where
  backend := ⟨"alchemy", receiptsTargetAlchemyGetTransactionReceipts⟩
  maxRetries := 0
  exchange := fun _ reqs => .response 200 (some (echoMethodParams reqs))

/-- A client's `consensus_getReceipts` for block `1`. -/
def receiptsRequest : RPCReq := ⟨"2.0", consensusGetReceiptsMethod, some (.arr [.str "0x1"]), some (.num "1")⟩

/-- The flaky backend's failed first attempt hands back the request as
    `debug_getRawReceipts`, which the Alchemy backend then forwards untranslated. -/
theorem doForward_retry_untranslated_flaky :
    receiptsRequest.method = consensusGetReceiptsMethod ∧
      flakyUpstream.backend.receiptsTarget ≠ consensusGetReceiptsMethod ∧
      doForward flakyUpstream.backend [receiptsRequest] false (.transportError "connection reset") =
        .ok ([⟨"2.0", receiptsTargetDebugGetRawReceipts, some (.arr [.str "0x1"]), some (.num "1")⟩],
          .error (.other "error in backend request connection reset")) ∧
      ((⟨"2.0", receiptsTargetDebugGetRawReceipts, some (.arr [.str "0x1"]), some (.num "1")⟩ : RPCReq).method =
          flakyUpstream.backend.receiptsTarget ∧
        doForward alchemyUpstream.backend
            [⟨"2.0", receiptsTargetDebugGetRawReceipts, some (.arr [.str "0x1"]), some (.num "1")⟩] false
            (.response 200 none) =
          doForward alchemyUpstream.backend
            [⟨"2.0", receiptsTargetDebugGetRawReceipts, some (.arr [.str "0x1"]), some (.num "1")⟩] true
            (.response 200 none)) := by
  have hm : receiptsRequest.method = consensusGetReceiptsMethod := rfl
  have ht : flakyUpstream.backend.receiptsTarget ≠ consensusGetReceiptsMethod := by decide
  have h : doForward flakyUpstream.backend [receiptsRequest] false (.transportError "connection reset") =
      .ok ([⟨"2.0", receiptsTargetDebugGetRawReceipts, some (.arr [.str "0x1"]), some (.num "1")⟩],
        .error (.other "error in backend request connection reset")) := rfl
  exact ⟨hm, ht, h, doForward_retry_untranslated flakyUpstream.backend alchemyUpstream.backend hm ht h _⟩

/-- Asked first, the Alchemy backend is sent its own method and parameter
    form, and its answer is wrapped with its method; after a failed attempt,
    the retry and the next backend are sent `debug_getRawReceipts` with its
    parameters, and their answer comes back unwrapped. -/
theorem forwardRequestToBackendGroup_receipts_after_failure :
    forwardRequestToBackendGroup false [alchemyUpstream] [receiptsRequest] =
      .ok (.ok [⟨"2.0", some (consensusGetReceiptsResult receiptsTargetAlchemyGetTransactionReceipts
        (some (.arr [.str receiptsTargetAlchemyGetTransactionReceipts,
          .arr [.obj [("blockHash", .null), ("blockNumber", .str "0x1")]]]))), none, some (.num "1")⟩]) ∧
    forwardRequestToBackendGroup false [flakyUpstream] [receiptsRequest] =
      .ok (.ok [⟨"2.0", some (.arr [.str receiptsTargetDebugGetRawReceipts, .arr [.str "0x1"]]), none,
        some (.num "1")⟩]) ∧
    forwardRequestToBackendGroup false [downUpstream, alchemyUpstream] [receiptsRequest] =
      .ok (.ok [⟨"2.0", some (.arr [.str receiptsTargetDebugGetRawReceipts, .arr [.str "0x1"]]), none,
        some (.num "1")⟩]) :=
  ⟨rfl, rfl, rfl⟩

end Proxyd.Rpc
