import Proxyd.Rpc.Batch
import Proxyd.Lib.Except
import Proxyd.Lib.Reorder

/-
  Proxyd.Rpc.ForwardSpec

  What a backend group answers a batch whose IDs are distinct, when its
  backends answer each request once by ID: every layer of the forwarding
  keeps the answers in the order of the requests.

    * `doForward` sorts the decoded answers by the position of their ID
      (`sortBatchRPCResponse_aligned`, from `map_insertionSort_of_perm`);
    * `Backend.Forward` retries only errors, and
      `ForwardRequestToBackendGroup` passes on answers, or errors that are
      not `consensus_getReceipts` ones;
    * `OverwriteConsensusResponses` splits the requests into slots, the
      answers it makes and holes for the requests it forwards
      (`overwriteConsensusResponses_slots`), and `OverrideResponses` inserts
      its answers back so that the holes are filled in order with the
      backend's answers (`overrideResponses_fill`).

  A batch is forwarded as a batch (`isBatch`): nothing is translated, and a
  `consensus_getReceipts` in it would end it, so the lemmas assume there is
  none.
-/

namespace Proxyd.Rpc

open Proxyd.Go Proxyd.Lib

/-! ## Conforming answers and aligned outcomes -/

/-- A backend answer to `reqs` that keeps to JSON-RPC: when the body decodes
    to one answer per request under status 200 or 400, no answer is `null`,
    each request's ID is answered once, and under status 400 every answer
    is an error. -/
def ConformingAnswer (reqs : List RPCReq) : HttpOutcome → Prop
  | .transportError _ => True
  | .response status body =>
    ∀ rs, decodeBackendResponse (reqs.length = 1) body = .ok rs → rs.length = reqs.length →
      (status = 200 ∨ status = 400) →
      ∃ rs' : List RPCRes, rs = rs'.map some ∧
        (rs'.map (idKey ·.id)).Perm (reqs.map (idKey ·.id)) ∧
        (status = 400 → ∀ r ∈ rs', r.error.isSome)

/-- An outcome of forwarding `reqs`: answers in the order of the requests'
    IDs, or an error that `P` allows. -/
def Outcome (P : ForwardError → Prop) (reqs : List RPCReq) :
    Except ForwardError (List RPCRes) → Prop
  | .ok res => res.map (idKey ·.id) = reqs.map (idKey ·.id)
  | .error e => P e

@[simp] theorem outcome_ok {P : ForwardError → Prop} {reqs : List RPCReq} {res : List RPCRes} :
    Outcome P reqs (.ok res) ↔ res.map (idKey ·.id) = reqs.map (idKey ·.id) := Iff.rfl

@[simp] theorem outcome_error {P : ForwardError → Prop} {reqs : List RPCReq} {e : ForwardError} :
    Outcome P reqs (.error e) ↔ P e := Iff.rfl

/-! ## `sortBatchRPCResponse` -/

/-- With distinct IDs, `requestPositions` maps each ID to its index, and
    leaves the other keys as they were. -/
theorem requestPositions_eq_ok : ∀ {req : List RPCReq} {i : ℕ} {pos : GoMap ℕ},
    (req.map (idKey ·.id)).Nodup → (∀ r ∈ req, pos.get (idKey r.id) = none) →
    ∃ pos', requestPositions req i pos = .ok pos' ∧
      (∀ j (h : j < req.length), pos'.get (idKey req[j].id) = some (i + j)) ∧
      ∀ k, k ∉ req.map (idKey ·.id) → pos'.get k = pos.get k
  | [], _, pos, _, _ => ⟨pos, rfl, fun _ h => absurd h (by simp), fun _ _ => rfl⟩
  | r :: rs, i, pos, hnd, hfree => by
    obtain ⟨hr, hnd'⟩ := List.nodup_cons.mp hnd
    -- the keys of the rest are still free once `r`'s is set
    have hfree' : ∀ r' ∈ rs, (pos.set (idKey r.id) i).get (idKey r'.id) = none := by
      intro r' hr'
      have hne : idKey r.id ≠ idKey r'.id := by
        intro h
        exact hr (List.mem_map.mpr ⟨r', hr', h.symm⟩)
      simp [hne, hfree r' (List.mem_cons_of_mem _ hr')]
    obtain ⟨pos', hrec, hat, hframe⟩ := @requestPositions_eq_ok rs (i + 1) _ hnd' hfree'
    refine ⟨pos', ?_, ?_, ?_⟩
    · simp [requestPositions, hfree r List.mem_cons_self, hrec]
    · intro j hj
      cases j with
      | zero => simp [hframe _ hr]
      | succ j => simpa [Nat.add_right_comm i 1 j, Nat.add_assoc] using hat j (by simpa using hj)
    · intro k hk
      have hkr : idKey r.id ≠ k := fun h => hk (h ▸ List.mem_cons_self)
      rw [hframe k fun h => hk (List.mem_cons_of_mem _ h)]
      simp [hkr]

/-- Answers whose IDs are a permutation of distinct request IDs are sorted
    into the requests' order. -/
theorem sortBatchRPCResponse_aligned {req : List RPCReq} {res : List RPCRes}
    (hnd : (req.map (idKey ·.id)).Nodup)
    (hp : (res.map (idKey ·.id)).Perm (req.map (idKey ·.id))) :
    ∃ res', sortBatchRPCResponse req res = .ok res' ∧
      res'.map (idKey ·.id) = req.map (idKey ·.id) := by
  obtain ⟨pos, hpos, hat, -⟩ := @requestPositions_eq_ok req 0 GoMap.empty hnd (by simp)
  let position := fun k => (pos.get k).getD 0
  refine ⟨res.insertionSort fun a b => position (idKey a.id) ≤ position (idKey b.id),
    by simp [sortBatchRPCResponse, hpos, position], ?_⟩
  refine map_insertionSort_of_perm (fun j hj => ?_) hp
  simp [position, hat j (by simpa using hj)]

/-! ## `doForward` on a batch -/

@[simp] theorem ForwardError.stopsGroup_other (msg : String) : (ForwardError.other msg).stopsGroup = false :=
  rfl

@[simp] theorem ForwardError.stopsGroup_backendUnexpectedJSONRPC :
    ForwardError.backendUnexpectedJSONRPC.stopsGroup = false := rfl

@[simp] theorem ForwardError.stopsGroup_backendBadResponse :
    (ForwardError.rpc errBackendBadResponse).stopsGroup = false := by decide

/-- A body that does not decode is a bad response or an unexpected one. -/
theorem decodeBackendResponse_stopsGroup {single : Bool} {body : Option Json} {e : ForwardError}
    (h : decodeBackendResponse single body = .error e) : e.stopsGroup = false := by
  unfold decodeBackendResponse at h
  repeat' split at h
  all_goals first | (cases h; simp) | cases h

theorem mapM_deref_map_some : ∀ xs : List RPCRes, (xs.map some).mapM deref = .ok xs
  | [] => rfl
  | x :: xs => by simp [deref, mapM_deref_map_some xs]

/-- Under status 400, answers that all carry an error get the status code,
    and keep their IDs. -/
theorem mapM_setHTTPErrorCode (status : ℕ) : ∀ {xs : List RPCRes}, (∀ r ∈ xs, r.error.isSome) →
    ∃ ys, (xs.map some).mapM (setHTTPErrorCode status) = .ok ys ∧ ys.map (·.id) = xs.map (·.id)
  | [], _ => ⟨[], rfl, rfl⟩
  | x :: xs, h => by
    obtain ⟨e, he⟩ := Option.isSome_iff_exists.mp (h x List.mem_cons_self)
    obtain ⟨ys, hys, hids⟩ := mapM_setHTTPErrorCode status fun r hr => h r (List.mem_cons_of_mem _ hr)
    refine ⟨{ x with error := some { e with httpErrorCode := status } } :: ys, ?_, by simp [hids]⟩
    simp [setHTTPErrorCode, deref, he, hys]

/-- Nothing is translated in a batch, so nothing is enriched. -/
@[simp] theorem enrichResult_nil : enrichResult [] = id :=
  funext fun res => by simp [enrichResult]

/-- `processResponses` once the count matches: the answers dereferenced (or
    given the status code), enriched and sorted. -/
theorem processResponses_of_length {reqs : List RPCReq} {translated : List (String × String)}
    {status : ℕ} {rs : List (Option RPCRes)} (h : reqs.length = rs.length) :
    processResponses reqs translated status rs =
      (if status ≠ 200 then rs.mapM (setHTTPErrorCode status) else rs.mapM deref) >>= fun rs =>
        (sortBatchRPCResponse reqs (rs.map (enrichResult translated))).map .ok := by
  simp only [processResponses, h, ne_eq, not_true_eq_false, if_false]
  split <;> rfl

/-- The answers of a status 200 or 400 exchange to distinct requests, when
    they conform: in the requests' order, or the error of a miscount. -/
theorem processResponses_batch {reqs : List RPCReq} {status : ℕ} {rs : List (Option RPCRes)}
    (hnd : (reqs.map (idKey ·.id)).Nodup) (hst : status = 200 ∨ status = 400)
    (hc : rs.length = reqs.length → ∃ rs' : List RPCRes, rs = rs'.map some ∧
      (rs'.map (idKey ·.id)).Perm (reqs.map (idKey ·.id)) ∧
      (status = 400 → ∀ r ∈ rs', r.error.isSome)) :
    ∃ r, processResponses reqs [] status rs = .ok r ∧ Outcome (·.stopsGroup = false) reqs r := by
  by_cases hlen : reqs.length = rs.length
  · obtain ⟨rs', rfl, hperm, herr⟩ := hc hlen.symm
    -- the answers once dereferenced: the same, or with the status code under 400
    obtain ⟨ys, hys, hids⟩ : ∃ ys, (if status ≠ 200 then (rs'.map some).mapM (setHTTPErrorCode status)
        else (rs'.map some).mapM deref) = .ok ys ∧ ys.map (·.id) = rs'.map (·.id) := by
      by_cases h200 : status = 200
      · exact ⟨rs', by rw [if_neg (not_not.mpr h200)]; exact mapM_deref_map_some rs', rfl⟩
      · obtain ⟨ys, hys, hids⟩ := mapM_setHTTPErrorCode status (herr (hst.resolve_left h200))
        exact ⟨ys, by rw [if_pos h200]; exact hys, hids⟩
    have hperm' : (ys.map (idKey ·.id)).Perm (reqs.map (idKey ·.id)) := by
      have : ys.map (idKey ·.id) = rs'.map (idKey ·.id) := by
        simpa [Function.comp_def] using congrArg (List.map idKey) hids
      rwa [this]
    obtain ⟨zs, hzs, hal⟩ := sortBatchRPCResponse_aligned hnd hperm'
    refine ⟨.ok zs, ?_, hal⟩
    rw [processResponses_of_length hlen, hys]
    simp [hzs, Except.map]
  · exact ⟨.error .backendUnexpectedJSONRPC, by simp [processResponses, hlen], by simp⟩

theorem sliceIndex_zero_of_ne_nil {α : Type} {xs : List α} (h : xs ≠ []) :
    ∃ x, sliceIndex xs 0 = .ok x := by
  obtain ⟨x, xs, rfl⟩ := List.exists_cons_of_ne_nil h
  exact ⟨x, rfl⟩

section Batch

variable {reqs : List RPCReq} (hne : reqs ≠ []) (hnd : (reqs.map (idKey ·.id)).Nodup)
  (hcgr : ∀ r ∈ reqs, r.method ≠ consensusGetReceiptsMethod)
include hne hnd hcgr

/-- `doForward` on a batch of distinct IDs and no `consensus_getReceipts`,
    whose backend answer conforms: the requests come back as they were,
    with answers in their order or an error that does not stop the group. -/
theorem doForward_batch (b : Backend) {http : HttpOutcome} (hc : ConformingAnswer reqs http) :
    ∃ r, doForward b reqs true http = .ok (reqs, r) ∧ Outcome (·.stopsGroup = false) reqs r := by
  have hany : (reqs.any fun r => decide (r.method = consensusGetReceiptsMethod)) = false := by
    simpa using hcgr
  cases http with
  | transportError msg =>
    exact ⟨.error (.other ("error in backend request " ++ msg)), by simp [doForward, hany], by simp⟩
  | response status body =>
    obtain ⟨r0, hr0⟩ := sliceIndex_zero_of_ne_nil hne
    by_cases hst : status ≠ 200 ∧ status ≠ 400
    · exact ⟨.error (.other ("response code " ++ toString status)), by simp [doForward, hany, hr0, hst],
        by simp⟩
    · have hst' : status = 200 ∨ status = 400 := by omega
      cases hdec : decodeBackendResponse (reqs.length = 1) body with
      | error e =>
        exact ⟨.error e, by simp [doForward, hany, hr0, hst, hdec], decodeBackendResponse_stopsGroup hdec⟩
      | ok rs =>
        obtain ⟨r, hproc, hout⟩ := processResponses_batch hnd hst' fun hl => hc rs hdec hl hst'
        exact ⟨r, by simp [doForward, hany, hr0, hst, hdec, hproc], hout⟩

theorem Upstream.attempt_batch (u : Upstream) (i : ℕ) (hc : ConformingAnswer reqs (u.exchange i reqs)) :
    ∃ r, u.attempt true i reqs = .ok (reqs, r) ∧ Outcome (·.stopsGroup = false) reqs r := by
  obtain ⟨r0, hr0⟩ := sliceIndex_zero_of_ne_nil hne
  obtain ⟨r, hr, hout⟩ := doForward_batch hne hnd hcgr u.backend hc
  exact ⟨r, by simp [Upstream.attempt, hr0, hr], hout⟩

omit hne hnd hcgr in
/-- After an attempt with an aligned outcome the outcome stays aligned, when
    every retry's does. -/
theorem afterAttempt_outcome {P : ForwardError → Prop}
    {retry : ForwardError → List RPCReq → Except GoPanic (List RPCReq × Except ForwardError (List RPCRes))}
    {r : Except ForwardError (List RPCRes)} (h : Outcome P reqs r)
    (hretry : ∀ e, P e → ∃ r', retry e reqs = .ok (reqs, r') ∧ Outcome P reqs r') :
    ∃ r', afterAttempt retry (reqs, r) = .ok (reqs, r') ∧ Outcome P reqs r' := by
  cases r with
  | ok res => exact ⟨.ok res, rfl, h⟩
  | error e =>
    by_cases hf : e.final
    · exact ⟨.error e, by simp [afterAttempt, hf], h⟩
    · simpa [afterAttempt, hf] using hretry e h

/-- `Backend.Forward` on such a batch: every attempt is aligned, so is what
    the loop returns. -/
theorem Upstream.forwardFrom_batch (u : Upstream) (hc : ∀ i, ConformingAnswer reqs (u.exchange i reqs)) :
    ∀ retries i, ∃ r, u.forwardFrom true i retries reqs = .ok (reqs, r) ∧
      Outcome (·.stopsGroup = false) reqs r
  | 0, i => by
    obtain ⟨r, hr, hout⟩ := u.attempt_batch hne hnd hcgr i (hc i)
    rw [Upstream.forwardFrom, hr, except_ok_bind]
    -- the last error is wrapped as an `other` error
    exact afterAttempt_outcome hout fun e _ => ⟨_, rfl, by simp⟩
  | retries + 1, i => by
    obtain ⟨r, hr, hout⟩ := u.attempt_batch hne hnd hcgr i (hc i)
    rw [Upstream.forwardFrom, hr, except_ok_bind]
    exact afterAttempt_outcome hout fun _ _ => u.forwardFrom_batch hc retries (i + 1)

end Batch

/-- `ForwardRequestToBackendGroup` on a batch of distinct IDs and no
    `consensus_getReceipts`, whose backends answer in conformance: answers
    in the requests' order, or an error that is not a `consensus_getReceipts`
    one. -/
theorem forwardRequestToBackendGroup_batch {reqs : List RPCReq}
    (hnd : (reqs.map (idKey ·.id)).Nodup) (hcgr : ∀ r ∈ reqs, r.method ≠ consensusGetReceiptsMethod) :
    ∀ us : List Upstream, (∀ u ∈ us, ∀ i, ConformingAnswer reqs (u.exchange i reqs)) →
      ∃ r, forwardRequestToBackendGroup true us reqs = .ok r ∧
        Outcome (·.isConsensusGetReceipts = false) reqs r
  | [], _ => ⟨_, rfl, rfl⟩
  | u :: us, hc => by
    by_cases hne : reqs = []
    · subst hne
      exact ⟨.ok [], by simp [forwardRequestToBackendGroup], rfl⟩
    have hpos : 0 < reqs.length := List.length_pos_of_ne_nil hne
    obtain ⟨r, hr, hout⟩ := u.forwardFrom_batch hne hnd hcgr (hc u List.mem_cons_self) u.maxRetries 0
    cases r with
    | ok res => exact ⟨.ok res, by simp [forwardRequestToBackendGroup, hpos, Upstream.forward, hr], hout⟩
    | error e =>
      obtain ⟨r', hr', hout'⟩ :=
        forwardRequestToBackendGroup_batch hnd hcgr us fun u' hu' => hc u' (List.mem_cons_of_mem _ hu')
      have hstop : e.stopsGroup = false := hout
      exact ⟨r', by simp [forwardRequestToBackendGroup, hpos, Upstream.forward, hr, hstop, hr'], hout'⟩

/-! ## What the backends answered -/

/-- An answer backend `u` gave to the requests `reqs` sent as a batch: at
    some attempt, under status 200 or 400, an entry of the decoded body as
    `processResponses` reads it, with the status code set under 400. -/
def Upstream.Gave (u : Upstream) (reqs : List RPCReq) (r : RPCRes) : Prop :=
  ∃ i status body rs, u.exchange i reqs = .response status body ∧ (status = 200 ∨ status = 400) ∧
    decodeBackendResponse (reqs.length = 1) body = .ok rs ∧
    ∃ a ∈ rs, (if status ≠ 200 then setHTTPErrorCode status a else deref a) = .ok r

/-- What an attempt, or a run of attempts, of backend `u` on a batch leaves:
    the requests as they were, and only answers `u` gave to them. -/
def Upstream.Kept (u : Upstream) (reqs : List RPCReq) :
    List RPCReq × Except ForwardError (List RPCRes) → Prop
  | (reqs', r) => reqs' = reqs ∧ ∀ res, r = .ok res → ∀ x ∈ res, u.Gave reqs x

theorem sortBatchRPCResponse_mem {req : List RPCReq} {res res' : List RPCRes}
    (h : sortBatchRPCResponse req res = .ok res') {x : RPCRes} (hx : x ∈ res') : x ∈ res := by
  obtain ⟨pos, -, h⟩ := except_bind_eq_ok.mp h
  rw [← except_pure_eq_ok.mp h] at hx
  exact (List.perm_insertionSort _ _).subset hx

/-- Every answer `processResponses` returns for a batch is an entry of the
    decoded body, as it reads it. -/
theorem processResponses_mem {reqs : List RPCReq} {status : ℕ} {rs : List (Option RPCRes)}
    {res : List RPCRes} (h : processResponses reqs [] status rs = .ok (.ok res)) {x : RPCRes} (hx : x ∈ res) :
    ∃ a ∈ rs, (if status ≠ 200 then setHTTPErrorCode status a else deref a) = .ok x := by
  -- a miscount is an error, not an answer
  have hlen : reqs.length = rs.length := by
    by_contra hne
    simp [processResponses, hne] at h
  rw [processResponses_of_length hlen] at h
  obtain ⟨ys, hys, h⟩ := except_bind_eq_ok.mp h
  obtain ⟨zs, hzs, h⟩ := except_map_eq_ok.mp h
  cases h
  have hy : x ∈ ys := by simpa using sortBatchRPCResponse_mem hzs hx
  -- the status decides the reading once for the whole body
  have hread : rs.mapM (fun a => if status ≠ 200 then setHTTPErrorCode status a else deref a) = .ok ys := by
    split_ifs at hys with h200 <;> simpa [h200] using hys
  exact except_mapM_mem hread hy

/-- `doForward` on a batch: the requests come back as they were, and an
    answer comes from a body decoded under status 200 or 400. -/
theorem doForward_batch_kept {b : Backend} {reqs reqs' : List RPCReq} {http : HttpOutcome}
    {r : Except ForwardError (List RPCRes)} (h : doForward b reqs true http = .ok (reqs', r)) :
    reqs' = reqs ∧ ∀ res, r = .ok res → ∃ status body rs, http = .response status body ∧
      (status = 200 ∨ status = 400) ∧ decodeBackendResponse (reqs.length = 1) body = .ok rs ∧
      processResponses reqs [] status rs = .ok (.ok res) := by
  -- every way out but the last is an error
  by_cases hany : (reqs.any fun r => decide (r.method = consensusGetReceiptsMethod)) = true
  · simp only [doForward, hany, if_true] at h
    cases h
    exact ⟨rfl, fun res hres => by cases hres⟩
  cases http with
  | transportError msg =>
    simp only [doForward, hany, if_true] at h
    cases h
    exact ⟨rfl, fun res hres => by cases hres⟩
  | response status body =>
    obtain ⟨r0, hr0⟩ : ∃ r0, sliceIndex reqs 0 = .ok r0 := by
      cases hr0 : sliceIndex reqs 0 with
      | error p => simp [doForward, hany, hr0] at h
      | ok r0 => exact ⟨r0, rfl⟩
    by_cases hst : status ≠ 200 ∧ status ≠ 400
    · simp [doForward, hany, hr0, hst] at h
      obtain ⟨rfl, rfl⟩ := h
      exact ⟨rfl, fun res hres => by cases hres⟩
    cases hdec : decodeBackendResponse (reqs.length = 1) body with
    | error e =>
      simp [doForward, hany, hr0, hst, hdec] at h
      obtain ⟨rfl, rfl⟩ := h
      exact ⟨rfl, fun res hres => by cases hres⟩
    | ok rs =>
      cases hproc : processResponses reqs [] status rs with
      | error p => simp [doForward, hany, hr0, hst, hdec, hproc] at h
      | ok r' =>
        simp [doForward, hany, hr0, hst, hdec, hproc] at h
        obtain ⟨rfl, rfl⟩ := h
        exact ⟨rfl, fun res hres => ⟨status, body, rs, rfl, by omega, hdec, hres ▸ hproc⟩⟩

theorem Upstream.attempt_kept (u : Upstream) {i : ℕ} {reqs : List RPCReq}
    {p : List RPCReq × Except ForwardError (List RPCRes)} (h : u.attempt true i reqs = .ok p) : u.Kept reqs p := by
  obtain ⟨-, -, h⟩ := except_bind_eq_ok.mp h
  rw [sentRequests_batch] at h
  obtain ⟨reqs', r⟩ := p
  obtain ⟨hreqs, hans⟩ := doForward_batch_kept h
  refine ⟨hreqs, fun res hres x hx => ?_⟩
  obtain ⟨status, body, rs, hex, hst, hdec, hproc⟩ := hans res hres
  exact ⟨i, status, body, rs, hex, hst, hdec, processResponses_mem hproc hx⟩

/-- After an attempt that keeps the batch, so does the loop, when every
    retry does. -/
theorem Upstream.afterAttempt_kept (u : Upstream) {reqs : List RPCReq}
    {retry : ForwardError → List RPCReq → Except GoPanic (List RPCReq × Except ForwardError (List RPCRes))}
    {p q : List RPCReq × Except ForwardError (List RPCRes)} (hp : u.Kept reqs p)
    (hretry : ∀ e q, retry e reqs = .ok q → u.Kept reqs q) (h : afterAttempt retry p = .ok q) :
    u.Kept reqs q := by
  obtain ⟨reqs', r⟩ := p
  obtain ⟨rfl, hans⟩ := hp
  cases r with
  | ok res =>
    cases h
    exact ⟨rfl, hans⟩
  | error e =>
    simp only [afterAttempt] at h
    split at h
    · cases h
      exact ⟨rfl, fun res hres => by cases hres⟩
    · exact hretry e q h

/-- `Backend.Forward` on a batch keeps it: every answer is one the backend
    gave to the requests. -/
theorem Upstream.forwardFrom_kept (u : Upstream) :
    ∀ (retries i : ℕ) {reqs : List RPCReq} {q : List RPCReq × Except ForwardError (List RPCRes)},
      u.forwardFrom true i retries reqs = .ok q → u.Kept reqs q
  | 0, i, reqs, q, h => by
    obtain ⟨p, hp, h⟩ := except_bind_eq_ok.mp h
    refine u.afterAttempt_kept (u.attempt_kept hp) (fun e q hq => ?_) h
    cases hq
    exact ⟨rfl, fun res hres => by cases hres⟩
  | retries + 1, i, reqs, q, h => by
    obtain ⟨p, hp, h⟩ := except_bind_eq_ok.mp h
    exact u.afterAttempt_kept (u.attempt_kept hp) (fun e q hq => u.forwardFrom_kept retries (i + 1) hq) h

/-- Every answer `ForwardRequestToBackendGroup` returns for a batch is one
    that a backend of the group gave to it. -/
theorem forwardRequestToBackendGroup_gave :
    ∀ {us : List Upstream} {reqs : List RPCReq} {res : List RPCRes},
      forwardRequestToBackendGroup true us reqs = .ok (.ok res) → ∀ x ∈ res, ∃ u ∈ us, u.Gave reqs x
  | [], _, _, h => by cases h
  | u :: us, reqs, res, h => by
    unfold forwardRequestToBackendGroup at h
    split at h
    · obtain ⟨⟨reqs', r⟩, hfw, h⟩ := except_bind_eq_ok.mp h
      obtain ⟨rfl, hans⟩ := u.forwardFrom_kept u.maxRetries 0 hfw
      cases r with
      | ok rpcRes =>
        have hres : rpcRes = res := by simpa using h
        subst hres
        intro x hx
        exact ⟨u, List.mem_cons_self, hans rpcRes rfl x hx⟩
      | error e =>
        simp only at h
        split at h
        · cases h
        · intro x hx
          obtain ⟨u', hu', hgave⟩ := forwardRequestToBackendGroup_gave h x hx
          exact ⟨u', List.mem_cons_of_mem _ hu', hgave⟩
    · cases h
      intro x hx
      cases hx

/-! ## Consensus overrides -/

/-- `rewriteRange` panics only when the params decode to no filter. -/
theorem rewriteRange_ok (rctx : RewriteContext) {params : Option Json}
    (h : unmarshalMapSlice params ≠ .ok []) : ∃ rw, rewriteRange rctx params 0 = .ok rw := by
  unfold rewriteRange
  cases hp : unmarshalMapSlice params with
  | error e => exact ⟨_, rfl⟩
  | ok p =>
    obtain ⟨m, hm0⟩ := sliceIndex_zero_of_ne_nil fun hnil => h (hnil ▸ hp)
    simp only [hm0, except_ok_bind]
    split <;> exact ⟨_, rfl⟩

/-- The rewriter panics only on a filter method whose params hold no filter. -/
theorem rewriteTags_ok (rctx : RewriteContext) {req : RPCReq}
    (h : req.method = "eth_getLogs" ∨ req.method = "eth_newFilter" →
      unmarshalMapSlice req.params ≠ .ok []) :
    ∃ x, rewriteTags rctx req = .ok x := by
  have hreq : ∃ rw, rewriteRequest rctx req = .ok rw := by
    by_cases hf : req.method = "eth_getLogs" ∨ req.method = "eth_newFilter"
    · have hp := h hf
      rcases hf with hf | hf <;> simpa [rewriteRequest, hf] using rewriteRange_ok rctx hp
    · unfold rewriteRequest
      split <;> first | exact ⟨_, rfl⟩ | simp_all
  obtain ⟨rw, hrw⟩ := hreq
  unfold rewriteTags
  split
  · exact ⟨_, rfl⟩
  · exact ⟨_, by rw [hrw]; rfl⟩

/-- `OverwriteConsensusResponses` does not panic when no request makes the
    rewriter panic. -/
theorem overwriteConsensusResponses_ok (rctx : RewriteContext) :
    ∀ (i : ℕ) {reqs : List RPCReq}, (∀ r ∈ reqs, ∃ x, rewriteTags rctx r = .ok x) →
      ∃ p, overwriteConsensusResponses rctx i reqs = .ok p
  | _, [], _ => ⟨_, rfl⟩
  | i, req :: reqs, h => by
    obtain ⟨⟨rw, result⟩, hrw⟩ := h req List.mem_cons_self
    obtain ⟨⟨rewritten, overridden⟩, hrec⟩ :=
      overwriteConsensusResponses_ok rctx (i + 1) fun r hr => h r (List.mem_cons_of_mem _ hr)
    simp only [overwriteConsensusResponses, hrw, hrec, except_ok_bind]
    split <;> exact ⟨_, rfl⟩

/-- An answer the consensus view gives to `req` itself: its rewrite answers
    it, with the result it overrides or with its error. -/
def OverrideAnswer (rctx : RewriteContext) (req : RPCReq) (r : RPCRes) : Prop :=
  ∃ rw result, rewriteTags rctx req = .ok (rw, result) ∧
    ((rw.result = .rewriteOverrideError ∧
        r = ⟨jsonRPCVersion, result, some (rewriteErrorRPCErr rctx rw.err), req.id⟩) ∨
      (rw.result = .rewriteOverrideResponse ∧ r = ⟨jsonRPCVersion, result, none, req.id⟩))

/-- The request a group sends for `req`: `req` itself, or under a consensus
    view, `req` with the params its rewrite leaves when it forwards it. -/
def SentAs : Option RewriteContext → RPCReq → RPCReq → Prop
  | none, req, req' => req' = req
  | some rctx, req, req' => ∃ rw result, rewriteTags rctx req = .ok (rw, result) ∧
      (rw.result = .rewriteOverrideRequest ∨ rw.result = .rewriteNone) ∧ req' = { req with params := rw.params }

/-- What `OverwriteConsensusResponses` leaves: a slot per request, holding
    the answer made for it, with its ID, or a hole where it is forwarded;
    the answers listed with their positions; and the forwarded requests,
    with their IDs and methods, in the order of the holes. -/
theorem overwriteConsensusResponses_slots (rctx : RewriteContext) :
    ∀ {i : ℕ} {reqs rewritten : List RPCReq} {overridden : List IndexedReqRes},
      overwriteConsensusResponses rctx i reqs = .ok (rewritten, overridden) →
      ∃ sl : List (Option RPCRes),
        List.Forall₂ (fun o r => o = none ∨ ∃ res, o = some res ∧ res.id = r.id ∧ OverrideAnswer rctx r res)
          sl reqs ∧
        overridden.map (fun ov => (ov.index, ov.res)) = filledFrom i sl ∧
        List.Forall₂ (fun r' r => r'.id = r.id ∧ r'.method = r.method ∧ SentAs (some rctx) r r') rewritten
          (atHoles sl reqs)
  | _, [], _, _, h => by
    simp only [overwriteConsensusResponses, Except.ok.injEq, Prod.mk.injEq] at h
    obtain ⟨rfl, rfl⟩ := h
    exact ⟨[], .nil, rfl, .nil⟩
  | i, req :: reqs, rewritten, overridden, h => by
    obtain ⟨⟨rw, result⟩, hrw, h⟩ := except_bind_eq_ok.mp h
    obtain ⟨⟨rewritten', overridden'⟩, hrec, h⟩ := except_bind_eq_ok.mp h
    obtain ⟨sl, hsl, hov, hrew⟩ := overwriteConsensusResponses_slots rctx hrec
    -- the request's own slot follows the rewrite's result
    cases hres : rw.result with
    | rewriteOverrideError =>
      simp only [hres, except_pure_eq_ok, Prod.mk.injEq] at h
      obtain ⟨rfl, rfl⟩ := h
      exact ⟨some ⟨jsonRPCVersion, result, some (rewriteErrorRPCErr rctx rw.err), req.id⟩ :: sl,
        .cons (.inr ⟨_, rfl, rfl, rw, result, hrw, .inl ⟨hres, rfl⟩⟩) hsl, by simp [filledFrom, hov],
        by simpa [atHoles]⟩
    | rewriteOverrideResponse =>
      simp only [hres, except_pure_eq_ok, Prod.mk.injEq] at h
      obtain ⟨rfl, rfl⟩ := h
      exact ⟨some ⟨jsonRPCVersion, result, none, req.id⟩ :: sl,
        .cons (.inr ⟨_, rfl, rfl, rw, result, hrw, .inr ⟨hres, rfl⟩⟩) hsl, by simp [filledFrom, hov],
        by simpa [atHoles]⟩
    | rewriteOverrideRequest | rewriteNone =>
      simp only [hres, except_pure_eq_ok, Prod.mk.injEq] at h
      obtain ⟨rfl, rfl⟩ := h
      exact ⟨none :: sl, .cons (.inl rfl) hsl, by simpa [filledFrom] using hov,
        .cons ⟨rfl, rfl, rw, result, hrw, by simp [hres], rfl⟩ (by simpa [atHoles] using hrew)⟩

/-- The requests `OverwriteConsensusResponses` forwards from a batch of
    distinct IDs and no `consensus_getReceipts`: those at the holes, with
    distinct IDs and no `consensus_getReceipts`. -/
theorem overwriteConsensusResponses_forwarded (rctx : RewriteContext) {reqs rewritten : List RPCReq}
    {sl : List (Option RPCRes)}
    (hrew : List.Forall₂ (fun r' r => r'.id = r.id ∧ r'.method = r.method ∧ SentAs (some rctx) r r') rewritten
      (atHoles sl reqs))
    (hnd : (reqs.map (idKey ·.id)).Nodup) (hcgr : ∀ r ∈ reqs, r.method ≠ consensusGetReceiptsMethod) :
    rewritten.map (idKey ·.id) = atHoles sl (reqs.map (idKey ·.id)) ∧ (rewritten.map (idKey ·.id)).Nodup ∧
      ∀ r ∈ rewritten, r.method ≠ consensusGetReceiptsMethod := by
  have hkeys : rewritten.map (idKey ·.id) = atHoles sl (reqs.map (idKey ·.id)) := by
    rw [atHoles_map_right]
    exact map_eq_map_of_forall₂ (hrew.imp fun _ _ h => congrArg idKey h.1)
  have hmethods : rewritten.map (·.method) = (atHoles sl reqs).map (·.method) :=
    map_eq_map_of_forall₂ (hrew.imp fun _ _ h => h.2.1)
  refine ⟨hkeys, hkeys ▸ hnd.sublist (atHoles_sublist _ _), fun r hr => ?_⟩
  obtain ⟨r0, hr0, hm⟩ := List.mem_map.mp (hmethods ▸ List.mem_map_of_mem hr)
  exact hm ▸ hcgr r0 ((atHoles_sublist sl reqs).subset hr0)

/-- Inserting the answers listed with their positions into the answers for
    the holes fills the holes in order; `done` is the part already filled. -/
theorem overrideResponses_fill : ∀ (sl : List (Option RPCRes)) (done xs : List RPCRes)
    (ovs : List IndexedReqRes), ovs.map (fun ov => (ov.index, ov.res)) = filledFrom done.length sl →
    xs.length = holes sl → overrideResponses (done ++ xs) ovs = .ok (done ++ fill sl xs)
  | [], done, xs, ovs, hov, hx => by
    have hovs : ovs = [] := by simpa [filledFrom] using hov
    have hxs : xs = [] := by simpa [holes] using hx
    subst hovs hxs
    simp [overrideResponses]
  | some a :: sl, done, xs, ovs, hov, hx => by
    have hne : ovs ≠ [] := by rintro rfl; simp [filledFrom] at hov
    obtain ⟨ov, ovs, rfl⟩ := List.exists_cons_of_ne_nil hne
    simp only [List.map_cons, filledFrom, List.cons.injEq, Prod.mk.injEq] at hov
    obtain ⟨⟨hi, ha⟩, hrest⟩ := hov
    -- the answer goes in right after the filled part, whichever branch inserts it
    have hstep : overrideResponses (done ++ xs) (ov :: ovs) = overrideResponses ((done ++ [a]) ++ xs) ovs := by
      rw [overrideResponses]
      split
      · rw [if_pos (by simp [hi])]
        simp [hi, ha]
      · have hnil : done = [] ∧ xs = [] := by simpa using ‹¬0 < (done ++ xs).length›
        obtain ⟨rfl, rfl⟩ := hnil
        simp [ha]
    rw [hstep, overrideResponses_fill sl (done ++ [a]) xs ovs (by simpa using hrest) (by simpa [holes] using hx)]
    simp
  | none :: sl, done, x :: xs, ovs, hov, hx => by
    rw [show done ++ x :: xs = (done ++ [x]) ++ xs by simp,
      overrideResponses_fill sl (done ++ [x]) xs ovs (by simpa [filledFrom] using hov)
        (by simpa [holes] using hx)]
    simp
  | none :: sl, done, [], ovs, hov, hx => by simp [holes] at hx

/-- `OverrideResponses` over the partition that `OverwriteConsensusResponses`
    makes, with one answer per forwarded request in forwarded order: it
    does not slice past the end, and gives one answer per request, each
    overridden answer at its own index (the indices increase) and the
    `k`-th answer at the index of the `k`-th forwarded request. -/
theorem overrideResponses_merge (rctx : RewriteContext) {reqs rewritten : List RPCReq}
    {overridden : List IndexedReqRes}
    (hpart : overwriteConsensusResponses rctx 0 reqs = .ok (rewritten, overridden))
    (res : List RPCRes) (hres : res.length = rewritten.length) :
    ∃ out, overrideResponses res overridden = .ok out ∧ out.length = reqs.length ∧
      (overridden.map (·.index)).Pairwise (· < ·) ∧
      (∀ ov ∈ overridden, out[ov.index]? = some ov.res) ∧
      ∃ forwarded : List ℕ, forwarded.length = rewritten.length ∧ forwarded.Pairwise (· < ·) ∧
        (forwarded ++ overridden.map (·.index)).Perm (List.range reqs.length) ∧
        (∀ k j : ℕ, forwarded[k]? = some j → ∃ r r' : RPCReq, reqs[j]? = some r ∧ rewritten[k]? = some r' ∧
          r'.id = r.id ∧ r'.method = r.method) ∧
        ∀ k j : ℕ, forwarded[k]? = some j → out[j]? = res[k]? := by
  obtain ⟨sl, hsl, hov, hrew⟩ := overwriteConsensusResponses_slots rctx hpart
  have hlen : sl.length = reqs.length := hsl.length_eq
  have hholes : res.length = holes sl := by rw [hres, hrew.length_eq, length_atHoles hlen]
  have hidx : overridden.map (·.index) = (filledFrom 0 sl).map Prod.fst := by
    rw [← hov, List.map_map]
    rfl
  have hrun : overrideResponses res overridden = .ok (fill sl res) := by
    simpa using overrideResponses_fill sl [] res overridden (by simpa using hov) hholes
  -- the forwarded requests sit at the holes of the slots
  refine ⟨fill sl res, hrun, (length_fill hholes).trans hlen, hidx ▸ pairwise_filledFrom 0 sl, ?_,
    holesFrom 0 sl, ?_, pairwise_holesFrom 0 sl, ?_, ?_, ?_⟩
  · intro ov hmem
    have hfilled : (ov.index, ov.res) ∈ filledFrom 0 sl := hov ▸ List.mem_map_of_mem hmem
    simpa using getElem?_fill_of_mem_filledFrom hholes hfilled
  · rw [length_holesFrom, ← length_atHoles hlen, hrew.length_eq]
  · rw [hidx, List.range_eq_range', ← hlen]
    exact holesFrom_append_filledFrom_perm 0 sl
  · intro k j hk
    obtain ⟨hlt, -⟩ := List.getElem?_eq_some_iff.mp hk
    have hk' : k < rewritten.length := by
      rwa [length_holesFrom, ← length_atHoles hlen, ← hrew.length_eq] at hlt
    have hk'' : k < (atHoles sl reqs).length := hrew.length_eq ▸ hk'
    have hat : (atHoles sl reqs)[k]? = reqs[j]? := by simpa using getElem?_atHoles_holesFrom hlen hk
    refine ⟨(atHoles sl reqs)[k], rewritten[k], ?_, List.getElem?_eq_getElem hk', ?_⟩
    · rw [← hat, List.getElem?_eq_getElem hk'']
    · have hR := hrew.get hk' hk''
      simp only [List.get_eq_getElem] at hR
      exact ⟨hR.1, hR.2.1⟩
  · intro k j hk
    simpa using getElem?_fill_holesFrom hholes hk

/-- An `eth_blockNumber` answered by the group ahead of a forwarded
    `eth_chainId`. -/
theorem overrideResponses_merge_blockNumber :
    ∃ rewritten overridden,
      overwriteConsensusResponses ⟨10, 5, 1, 100⟩ 0
          [⟨"2.0", "eth_blockNumber", some (.arr []), some (.num "1")⟩,
            ⟨"2.0", "eth_chainId", some (.arr []), some (.num "2")⟩] = .ok (rewritten, overridden) ∧
        [(⟨"2.0", some (.str "0x38"), none, some (.num "2")⟩ : RPCRes)].length = rewritten.length ∧
        ∃ out, overrideResponses [⟨"2.0", some (.str "0x38"), none, some (.num "2")⟩] overridden = .ok out ∧
          out.length = 2 ∧ (overridden.map (·.index)).Pairwise (· < ·) ∧
          (∀ ov ∈ overridden, out[ov.index]? = some ov.res) ∧
          ∃ forwarded : List ℕ, forwarded.length = rewritten.length ∧ forwarded.Pairwise (· < ·) ∧
            (forwarded ++ overridden.map (·.index)).Perm (List.range 2) ∧
            (∀ k j : ℕ, forwarded[k]? = some j → ∃ r r' : RPCReq,
              [(⟨"2.0", "eth_blockNumber", some (.arr []), some (.num "1")⟩ : RPCReq),
                ⟨"2.0", "eth_chainId", some (.arr []), some (.num "2")⟩][j]? = some r ∧
              rewritten[k]? = some r' ∧ r'.id = r.id ∧ r'.method = r.method) ∧
            ∀ k j : ℕ, forwarded[k]? = some j →
              out[j]? = [(⟨"2.0", some (.str "0x38"), none, some (.num "2")⟩ : RPCRes)][k]? :=
  ⟨_, _, rfl, rfl, @overrideResponses_merge ⟨10, 5, 1, 100⟩
    [⟨"2.0", "eth_blockNumber", some (.arr []), some (.num "1")⟩,
      ⟨"2.0", "eth_chainId", some (.arr []), some (.num "2")⟩] _ _ rfl _ rfl⟩

/-- `BackendGroup.Forward` on a batch of distinct IDs and no
    `consensus_getReceipts`, none of which makes the rewriter panic, to
    backends that answer in conformance: answers in the requests' order, or
    an error that is not a `consensus_getReceipts` one. -/
theorem BackendGroup.forward_batch (bg : BackendGroup) {reqs : List RPCReq}
    (hnd : (reqs.map (idKey ·.id)).Nodup) (hcgr : ∀ r ∈ reqs, r.method ≠ consensusGetReceiptsMethod)
    (hrw : ∀ rctx, bg.consensus = some rctx → ∀ r ∈ reqs, ∃ x, rewriteTags rctx r = .ok x)
    (hc : ∀ u ∈ bg.backends, ∀ i rs, ConformingAnswer rs (u.exchange i rs)) :
    ∃ r, bg.forward reqs true = .ok r ∧ Outcome (·.isConsensusGetReceipts = false) reqs r := by
  by_cases h0 : reqs.length = 0
  · exact ⟨.ok [], by simp [BackendGroup.forward, h0], by simp [List.length_eq_zero_iff.mp h0]⟩
  cases hcons : bg.consensus with
  | none =>
    obtain ⟨r, hr, hout⟩ :=
      forwardRequestToBackendGroup_batch hnd hcgr bg.backends fun u hu i => hc u hu i reqs
    cases r with
    | ok res => exact ⟨.ok res, by simp [BackendGroup.forward, h0, hcons, hr, overrideResponses], hout⟩
    | error e => exact ⟨.error e, by simp [BackendGroup.forward, h0, hcons, hr], hout⟩
  | some rctx =>
    obtain ⟨⟨rewritten, overridden⟩, hov⟩ := overwriteConsensusResponses_ok rctx 0 (hrw rctx hcons)
    obtain ⟨sl, hsl, hfilled, hrew⟩ := overwriteConsensusResponses_slots rctx hov
    -- the forwarded requests are those at the holes, with their IDs and methods
    obtain ⟨hkeys, hnd', hcgr'⟩ := overwriteConsensusResponses_forwarded rctx hrew hnd hcgr
    obtain ⟨r, hr, hout⟩ :=
      forwardRequestToBackendGroup_batch hnd' hcgr' bg.backends fun u hu i => hc u hu i rewritten
    cases r with
    | error e => exact ⟨.error e, by simp [BackendGroup.forward, h0, hcons, hov, hr], hout⟩
    | ok res =>
      have hlen : res.length = holes sl := by
        have := congrArg List.length ((show res.map (idKey ·.id) = _ from hout).trans hkeys)
        rwa [List.length_map, length_atHoles (by simpa using hsl.length_eq)] at this
      have hfill : overrideResponses res overridden = .ok (fill sl res) := by
        simpa using overrideResponses_fill sl [] res overridden hfilled hlen
      refine ⟨.ok (fill sl res), ?_, ?_⟩
      · simp [BackendGroup.forward, h0, hcons, hov, hr, hfill]
      -- the answers' IDs fill the holes of slots that agree with the requests' IDs
      have hagree : List.Forall₂ (fun o k => o = none ∨ o = some k)
          (sl.map (Option.map (idKey ·.id))) (reqs.map (idKey ·.id)) := by
        rw [List.forall₂_map_left_iff, List.forall₂_map_right_iff]
        refine hsl.imp fun o r h => ?_
        rcases h with rfl | ⟨res, rfl, hid, -⟩
        · simp
        · simp [hid]
      calc (fill sl res).map (idKey ·.id)
          = fill (sl.map (Option.map (idKey ·.id))) (res.map (idKey ·.id)) := fill_map _ _ _
        _ = fill (sl.map (Option.map (idKey ·.id)))
              (atHoles (sl.map (Option.map (idKey ·.id))) (reqs.map (idKey ·.id))) := by
            rw [show res.map (idKey ·.id) = _ from hout, hkeys, atHoles_map_left]
        _ = reqs.map (idKey ·.id) := fill_atHoles hagree

/-- Where the answer `r` of a group's `Forward` to the request `req` comes
    from: the consensus view answers `req` itself, or a backend of the group
    answered, with the ID of the request sent for `req`, a list of distinct
    IDs holding that request. -/
def GroupAnswer (bg : BackendGroup) (req : RPCReq) (r : RPCRes) : Prop :=
  (∃ rctx, bg.consensus = some rctx ∧ OverrideAnswer rctx req r) ∨
    ∃ req' L, SentAs bg.consensus req req' ∧ req' ∈ L ∧ (L.map (idKey ·.id)).Nodup ∧
      idKey r.id = idKey req'.id ∧ ∃ u ∈ bg.backends, u.Gave L r

/-- The answers `ForwardRequestToBackendGroup` returns for a batch of
    distinct IDs, in conformance: each, at the position of its request, has
    its ID and is what a backend gave to the batch. -/
theorem forwardRequestToBackendGroup_answers {us : List Upstream} {reqs : List RPCReq} {res : List RPCRes}
    (h : forwardRequestToBackendGroup true us reqs = .ok (.ok res))
    (halign : res.map (idKey ·.id) = reqs.map (idKey ·.id)) :
    List.Forall₂ (fun r q => idKey r.id = idKey q.id ∧ (∃ u ∈ us, u.Gave reqs r) ∧ q ∈ reqs) res reqs := by
  have hgave := (List.forall₂_and_left _ _).mpr ⟨forwardRequestToBackendGroup_gave h, forall₂_of_map_eq halign⟩
  exact (forall₂_mem hgave).imp fun _ _ h => ⟨h.1.2, h.1.1, h.2.2⟩

/-- `BackendGroup.Forward` on a batch as in `BackendGroup.forward_batch`:
    every answer it returns, at the position of its request, has the
    request's ID and is the group's answer to it. -/
theorem BackendGroup.forward_answers (bg : BackendGroup) {reqs : List RPCReq}
    (hnd : (reqs.map (idKey ·.id)).Nodup) (hcgr : ∀ r ∈ reqs, r.method ≠ consensusGetReceiptsMethod)
    (hrw : ∀ rctx, bg.consensus = some rctx → ∀ r ∈ reqs, ∃ x, rewriteTags rctx r = .ok x)
    (hc : ∀ u ∈ bg.backends, ∀ i rs, ConformingAnswer rs (u.exchange i rs)) {out : List RPCRes}
    (h : bg.forward reqs true = .ok (.ok out)) :
    List.Forall₂ (fun r q => idKey r.id = idKey q.id ∧ GroupAnswer bg q r) out reqs := by
  by_cases h0 : reqs.length = 0
  · obtain rfl := List.length_eq_zero_iff.mp h0
    simp only [BackendGroup.forward, List.length_nil, if_true, Except.ok.injEq] at h
    cases h
    exact .nil
  cases hcons : bg.consensus with
  | none =>
    obtain ⟨r, hr, hout⟩ :=
      forwardRequestToBackendGroup_batch hnd hcgr bg.backends fun u hu i => hc u hu i reqs
    cases r with
    | error e => simp [BackendGroup.forward, h0, hcons, hr] at h
    | ok res =>
      have hres : res = out := by simpa [BackendGroup.forward, h0, hcons, hr, overrideResponses] using h
      subst hres
      -- each answer is a backend's to the batch as it was sent
      refine (forwardRequestToBackendGroup_answers hr hout).imp fun r q ⟨hid, hgave, hq⟩ => ⟨hid, .inr ?_⟩
      exact ⟨q, reqs, by rw [hcons]; rfl, hq, hnd, hid, hgave⟩
  | some rctx =>
    obtain ⟨⟨rewritten, overridden⟩, hov⟩ := overwriteConsensusResponses_ok rctx 0 (hrw rctx hcons)
    obtain ⟨sl, hsl, hfilled, hrew⟩ := overwriteConsensusResponses_slots rctx hov
    obtain ⟨hkeys, hnd', hcgr'⟩ := overwriteConsensusResponses_forwarded rctx hrew hnd hcgr
    obtain ⟨r, hr, hout⟩ :=
      forwardRequestToBackendGroup_batch hnd' hcgr' bg.backends fun u hu i => hc u hu i rewritten
    cases r with
    | error e => simp [BackendGroup.forward, h0, hcons, hov, hr] at h
    | ok res =>
      have hlen : res.length = holes sl := by
        have := congrArg List.length ((show res.map (idKey ·.id) = _ from hout).trans hkeys)
        rwa [List.length_map, length_atHoles (by simpa using hsl.length_eq)] at this
      have hfill : overrideResponses res overridden = .ok (fill sl res) := by
        simpa using overrideResponses_fill sl [] res overridden hfilled hlen
      have hout' : fill sl res = out := by
        simpa [BackendGroup.forward, h0, hcons, hov, hr, hfill] using h
      subst hout'
      -- the overridden slots hold the view's own answers, the holes the backends'
      have hslots : List.Forall₂ (fun o q => o = none ∨
          ∃ a, o = some a ∧ idKey a.id = idKey q.id ∧ GroupAnswer bg q a) sl reqs := by
        refine hsl.imp fun o q h => h.imp_right ?_
        rintro ⟨a, rfl, hid, hans⟩
        exact ⟨a, rfl, congrArg idKey hid, .inl ⟨rctx, hcons, hans⟩⟩
      refine forall₂_fill hslots ((forall₂_comp (forwardRequestToBackendGroup_answers hr hout) hrew).imp ?_)
      rintro r q ⟨q', ⟨hid, hgave, hq'⟩, hid', -, hsent⟩
      refine ⟨hid.trans (congrArg idKey hid'), .inr ⟨q', rewritten, ?_, hq', hnd', hid, hgave⟩⟩
      rw [hcons]
      exact hsent

/-! ## The echo backend conforms -/

theorem unmarshalRPCRes_echoAnswer (r : RPCReq) :
    unmarshalRPCRes (echoAnswer r) = .ok ⟨"2.0", some (.str "0x1"), none, r.id⟩ := by
  obtain ⟨_, _, _, _ | id⟩ := r
  · rfl
  · simp +decide [echoAnswer, unmarshalRPCRes, foldMatches, decodeStringField, decodePtrField, badNumbers?,
      Json.badNumber?]

theorem unmarshalRPCResSlice_echoAnswer : ∀ rs : List RPCReq,
    unmarshalRPCResSlice (.arr (rs.map echoAnswer)) =
      .ok (rs.map fun r => some ⟨"2.0", some (.str "0x1"), none, r.id⟩)
  | [] => rfl
  | r :: rs => by
    have ih := unmarshalRPCResSlice_echoAnswer rs
    -- the answer is an object, so the element decoder takes it as a response
    obtain ⟨ms, hms⟩ : ∃ ms, echoAnswer r = .obj ms := ⟨_, rfl⟩
    have hdec := unmarshalRPCRes_echoAnswer r
    rw [hms] at hdec
    rw [unmarshalRPCResSlice] at ih ⊢
    rw [List.map_cons, List.mapM_cons, ih, hms]
    simp [hdec, Except.map]

theorem echoBackend_exchange_batch (i : ℕ) :
    ∀ rs : List RPCReq, rs.length ≠ 1 →
      echoBackend.exchange i rs = .response 200 (some (.arr (rs.reverse.map echoAnswer)))
  | [], _ => rfl
  | _ :: _ :: _, _ => rfl
  | [_], h => absurd rfl h

/-- The echo backend answers every list of requests in conformance. -/
theorem echoBackend_conforming (i : ℕ) (rs : List RPCReq) : ConformingAnswer rs (echoBackend.exchange i rs) := by
  by_cases h1 : rs.length = 1
  · -- a lone request gets a lone answer
    obtain ⟨r, rfl⟩ := List.length_eq_one_iff.mp h1
    intro res hdec _ _
    have hres : res = [some ⟨"2.0", some (.str "0x1"), none, r.id⟩] := by
      simpa [echoBackend, decodeBackendResponse, unmarshalRPCRes_echoAnswer] using hdec.symm
    subst hres
    exact ⟨[⟨"2.0", some (.str "0x1"), none, r.id⟩], rfl, List.Perm.refl _, by simp⟩
  · -- a batch gets its answers in reverse order
    rw [echoBackend_exchange_batch i rs h1]
    intro res hdec _ _
    have hres : rs.reverse.map (fun r => some ⟨"2.0", some (.str "0x1"), none, r.id⟩) = res := by
      rw [decodeBackendResponse, if_neg (by simpa using h1), unmarshalRPCResSlice_echoAnswer] at hdec
      simpa using hdec
    subst hres
    refine ⟨rs.reverse.map fun r => ⟨"2.0", some (.str "0x1"), none, r.id⟩, by simp [Function.comp_def], ?_,
      by simp⟩
    simp [Function.comp_def]

theorem parseRPCReq_clientRequest (id method : String) (params : List Json) :
    parseRPCReq (clientRequest id method params) =
      .ok ⟨"2.0", method, some (.arr params), some (.num id)⟩ := by
  simp +decide [clientRequest, parseRPCReq, unmarshalRPCReq, foldMatches, decodeStringField]

end Proxyd.Rpc
