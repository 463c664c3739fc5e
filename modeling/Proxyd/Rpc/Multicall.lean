import Proxyd.Rpc.ForwardSpec
import Proxyd.Lib.Reach
import Proxyd.Lib.Except

/-
  Proxyd.Rpc.Multicall

  `BackendGroup.ExecuteMulticall`: the one request is sent to every target,
  each by a goroutine of its own that puts its result into a channel with
  room for all of them, a last goroutine closes the channel once all have
  sent, and `ProcessMulticallResponses` takes results off the channel until
  one will do or the channel is closed.

  The result is taken as a function of the order the results arrive in
  (`processMulticallResponses`): the first that has no error and, with
  `multicallRPCErrorCheck`, whose first answer is no JSON-RPC error, or else
  the last that arrived (`processMulticallResponses_eq`).  The goroutines,
  the channel and the receiver are a transition system (`multicallSystem`):
  in each of its reachable states a goroutine that has not sent finds room
  in the channel, before and after the receiver has returned, and what the
  receiver returned is the result for the order the results arrive in.
  No state is stuck before the receiver returns, and every run is finite.
-/

namespace Proxyd.Rpc

open Proxyd.Go Proxyd.Lib

/-- `BackendGroupRPCResponse`. -/
structure BackendGroupRPCResponse where
  rpcRes : List RPCRes
  servedBy : String
  error : Option ForwardError

/-- `multicallTuple`. -/
structure MulticallTuple where
  response : BackendGroupRPCResponse
  backendName : String

/-- The targets of `ExecuteMulticall`: the healthy backends, or all of them
    when none is healthy. -/
def multicallTargets {β : Type} (isHealthy : β → Bool) (backends : List β) : List β :=
  match backends.filter isHealthy with
  | [] => backends
  | targets => targets

/-- `BackendGroup.MulticallRequest`: what the goroutine of one backend puts
    into the channel, `ForwardRequestToBackendGroup` over that backend alone. -/
def multicallRequest (groupName : String) (rpcReqs : List RPCReq) (u : Upstream) :
    Except GoPanic MulticallTuple := do
  let res ← forwardRequestToBackendGroup false [u] rpcReqs
  let response : BackendGroupRPCResponse := match res with
    | .ok rpcRes => ⟨rpcRes, groupName ++ "/" ++ u.backend.name, none⟩
    | .error e => ⟨[], "", some e⟩
  return ⟨response, u.backend.name⟩

/-- What `ProcessMulticallResponses` is at between two receives: looping
    with its count and the last response kept, or returned. -/
inductive Received where
  | next (i : ℕ) (finalResp : Option BackendGroupRPCResponse)
  | done (r : Except GoPanic (Option BackendGroupRPCResponse))

/-- The answer when no response was received. -/
def noMulticallResponse : BackendGroupRPCResponse :=
  ⟨[], "", some (.other "no multicall response received")⟩

/-- One receive of `ProcessMulticallResponses`: an error, or with the check
    a JSON-RPC error in the first answer, is kept and the loop goes on; any
    other response is returned. -/
def receive (multicallRPCErrorCheck : Bool) (i : ℕ) (t : MulticallTuple) : Received :=
  let resp := t.response
  if resp.error.isSome then .next (i + 1) (some resp)
  else if multicallRPCErrorCheck then
    -- `resp.RPCRes[0].IsError()`
    match sliceIndex resp.rpcRes 0 with
    | .error p => .done (.error p)
    | .ok r0 => if r0.error.isSome then .next (i + 1) (some resp) else .done (.ok (some resp))
  else .done (.ok (some resp))

/-- What `ProcessMulticallResponses` returns once the channel is closed. -/
def closedResult (i : ℕ) (finalResp : Option BackendGroupRPCResponse) :
    Except GoPanic (Option BackendGroupRPCResponse) :=
  if i > 0 then .ok finalResp else .ok (some noMulticallResponse)

/-- `ProcessMulticallResponses` over the results in the order they arrive,
    the channel closed after the last. -/
def processMulticallResponses (multicallRPCErrorCheck : Bool) :
    ℕ → Option BackendGroupRPCResponse → List MulticallTuple →
      Except GoPanic (Option BackendGroupRPCResponse)
  | i, finalResp, [] => closedResult i finalResp
  | i, _, t :: ts =>
    match receive multicallRPCErrorCheck i t with
    | .next i finalResp => processMulticallResponses multicallRPCErrorCheck i finalResp ts
    | .done r => r

/-! ## The result for every order of arrival -/

/-- A response the loop returns at once: no error, and with the check, a
    first answer that is no JSON-RPC error. -/
def settles (multicallRPCErrorCheck : Bool) (resp : BackendGroupRPCResponse) : Bool :=
  resp.error.isNone && !(multicallRPCErrorCheck && resp.rpcRes.head?.any (·.error.isSome))

/-- The response that settles the multicall: the first to arrive that
    settles, or else the last to arrive. -/
def firstOrLast (multicallRPCErrorCheck : Bool) (arrivals : List MulticallTuple) :
    Option BackendGroupRPCResponse :=
  match arrivals.find? (settles multicallRPCErrorCheck ·.response) with
  | some t => some t.response
  | none => arrivals.getLast?.map (·.response)

/-- A result with no error holds an answer, as one for one request does. -/
def MulticallTuple.Answered (t : MulticallTuple) : Prop :=
  t.response.error = none → t.response.rpcRes ≠ []

section Receive

variable (ec : Bool) {t : MulticallTuple}

theorem receive_of_settles (ht : t.Answered) (hs : settles ec t.response = true) (i : ℕ) :
    receive ec i t = .done (.ok (some t.response)) := by
  have herr : t.response.error = none := by simpa [settles] using (Bool.and_eq_true_iff.mp hs).1
  obtain ⟨r0, rs, hrs⟩ := List.exists_cons_of_ne_nil (ht herr)
  cases ec <;> simp_all [receive, settles, sliceIndex]

theorem receive_of_not_settles (ht : t.Answered) (hs : settles ec t.response = false) (i : ℕ) :
    receive ec i t = .next (i + 1) (some t.response) := by
  cases herr : t.response.error with
  | some e => simp [receive, herr]
  | none =>
    -- without an error, only the check can keep the response
    obtain ⟨r0, rs, hrs⟩ := List.exists_cons_of_ne_nil (ht herr)
    cases ec <;> simp_all [receive, settles, sliceIndex]

end Receive

theorem firstOrLast_cons_of_settles (ec : Bool) {t : MulticallTuple} (hs : settles ec t.response = true)
    (ts : List MulticallTuple) : firstOrLast ec (t :: ts) = some t.response := by
  simp [firstOrLast, hs]

theorem firstOrLast_cons_of_not_settles (ec : Bool) {t : MulticallTuple} (hs : settles ec t.response = false)
    {ts : List MulticallTuple} (hts : ts ≠ []) : firstOrLast ec (t :: ts) = firstOrLast ec ts := by
  obtain ⟨t', ts', rfl⟩ := List.exists_cons_of_ne_nil hts
  simp [firstOrLast, hs, List.getLast?_cons_cons]

/-- For every order in which the results arrive, all of them answered,
    `ProcessMulticallResponses` returns the first that settles, or else the
    last. -/
theorem processMulticallResponses_eq (ec : Bool) :
    ∀ (ts : List MulticallTuple) (i : ℕ) (f : Option BackendGroupRPCResponse),
      ts ≠ [] → (∀ t ∈ ts, t.Answered) → processMulticallResponses ec i f ts = .ok (firstOrLast ec ts)
  | [], _, _, h, _ => absurd rfl h
  | t :: ts, i, f, _, hans => by
    have ht := hans t List.mem_cons_self
    cases hs : settles ec t.response
    · -- kept: the rest decides, or `t` is the last
      rw [processMulticallResponses, receive_of_not_settles ec ht hs]
      dsimp only
      rcases eq_or_ne ts [] with rfl | hts
      · simp [processMulticallResponses, closedResult, firstOrLast, hs]
      · rw [processMulticallResponses_eq ec ts (i + 1) _ hts fun t' h' => hans t' (List.mem_cons_of_mem _ h'),
          firstOrLast_cons_of_not_settles ec hs hts]
    · rw [processMulticallResponses, receive_of_settles ec ht hs, firstOrLast_cons_of_settles ec hs]

/-- The receiver after it has taken `ts` off the channel. -/
def receiveAll (ec : Bool) : Received → List MulticallTuple → Received
  | .next i f, [] => .next i f
  | .next i _, t :: ts => receiveAll ec (receive ec i t) ts
  | .done r, _ => .done r

@[simp] theorem receiveAll_nil (ec : Bool) (r : Received) : receiveAll ec r [] = r := by
  cases r <;> rfl

theorem receiveAll_append (ec : Bool) :
    ∀ (r : Received) (ts ts' : List MulticallTuple), receiveAll ec r (ts ++ ts') = receiveAll ec (receiveAll ec r ts) ts'
  | .next _ _, [], _ => rfl
  | .next i _, t :: ts, ts' => receiveAll_append ec (receive ec i t) ts ts'
  | .done _, [], _ => rfl
  | .done _, _ :: _, ts' => by cases ts' <;> rfl

/-- The loop over results that arrive after `ts`: once the receiver has
    returned on `ts`, nothing after them matters. -/
theorem processMulticallResponses_append (ec : Bool) :
    ∀ (ts rest : List MulticallTuple) (i : ℕ) (f : Option BackendGroupRPCResponse),
      processMulticallResponses ec i f (ts ++ rest) =
        match receiveAll ec (.next i f) ts with
        | .next i f => processMulticallResponses ec i f rest
        | .done r => r
  | [], _, _, _ => rfl
  | t :: ts, rest, i, f => by
    simp only [List.cons_append, processMulticallResponses, receiveAll]
    cases receive ec i t with
    | next i' f' => exact processMulticallResponses_append ec ts rest i' f'
    | done r => cases ts <;> rfl

/-! ## The goroutines, the channel and the receiver -/

/-- `ExecuteMulticall` once its goroutines are started: the results not yet
    sent, the channel's buffer, whether it is closed, the receiver, and
    every result sent so far in the order sent. -/
structure MulticallRun where
  unsent : List MulticallTuple
  buffer : List MulticallTuple
  closed : Bool
  receiver : Received
  sent : List MulticallTuple

inductive MulticallEvent where
  | send
  | close
  | receive

/-- The steps of a multicall over a channel with room for `cap` results: a
    goroutine sends when the buffer has room, the closer closes once all
    have sent, and the receiver takes the oldest result, or returns on a
    closed and empty channel. -/
inductive MulticallStep (ec : Bool) (cap : ℕ) : MulticallRun → MulticallEvent → MulticallRun → Prop
  | send {s : MulticallRun} {pre post : List MulticallTuple} {t : MulticallTuple}
      (hunsent : s.unsent = pre ++ t :: post) (hroom : s.buffer.length < cap) :
      MulticallStep ec cap s .send
        { s with unsent := pre ++ post, buffer := s.buffer ++ [t], sent := s.sent ++ [t] }
  | close {s : MulticallRun} (hall : s.unsent = []) (hopen : s.closed = false) :
      MulticallStep ec cap s .close { s with closed := true }
  | receive {s : MulticallRun} {i : ℕ} {f : Option BackendGroupRPCResponse} {t : MulticallTuple}
      {buf : List MulticallTuple} (hrecv : s.receiver = .next i f) (hbuf : s.buffer = t :: buf) :
      MulticallStep ec cap s .receive { s with buffer := buf, receiver := receive ec i t }
  | receiveClosed {s : MulticallRun} {i : ℕ} {f : Option BackendGroupRPCResponse}
      (hrecv : s.receiver = .next i f) (hbuf : s.buffer = []) (hclosed : s.closed = true) :
      MulticallStep ec cap s .receive { s with receiver := .done (closedResult i f) }

/-- `ExecuteMulticall` over the results `tuples`, one per target, in a
    channel made with room for as many. -/
def multicallSystem (ec : Bool) (tuples : List MulticallTuple) : LTS MulticallRun MulticallEvent where
  init s := s = ⟨tuples, [], false, .next 0 none, []⟩
  step := MulticallStep ec tuples.length

/-- The invariant of a multicall: results are sent once each, the buffer
    and the goroutines still to send fit in the channel, and the receiver
    has taken a prefix of what was sent and acted on it as the loop does. -/
structure MulticallInv (ec : Bool) (tuples : List MulticallTuple) (s : MulticallRun) : Prop where
  room : s.buffer.length + s.unsent.length ≤ tuples.length
  perm : (s.sent ++ s.unsent).Perm tuples
  closed_unsent : s.closed = true → s.unsent = []
  next : ∀ i f, s.receiver = .next i f →
    ∃ consumed, s.sent = consumed ++ s.buffer ∧ receiveAll ec (.next 0 none) consumed = .next i f
  done : ∀ r, s.receiver = .done r →
    ∀ rest, (s.sent ++ rest).Perm tuples → processMulticallResponses ec 0 none (s.sent ++ rest) = r

section Steps

variable {ec : Bool} {tuples : List MulticallTuple} {s : MulticallRun}

theorem MulticallInv.init : MulticallInv ec tuples ⟨tuples, [], false, .next 0 none, []⟩ where
  room := by simp
  perm := by simp
  closed_unsent h := by cases h
  next i f h := ⟨[], by simp, by cases h; rfl⟩
  done r h := by cases h

theorem MulticallInv.send (hinv : MulticallInv ec tuples s) {pre post : List MulticallTuple}
    {t : MulticallTuple} (hunsent : s.unsent = pre ++ t :: post) :
    MulticallInv ec tuples { s with unsent := pre ++ post, buffer := s.buffer ++ [t], sent := s.sent ++ [t] } where
  room := by
    have := hinv.room
    show (s.buffer ++ [t]).length + (pre ++ post).length ≤ tuples.length
    simp only [hunsent, List.length_append, List.length_cons, List.length_nil] at this ⊢
    omega
  perm := by
    have hp := hinv.perm
    rw [hunsent] at hp
    show (s.sent ++ [t] ++ (pre ++ post)).Perm tuples
    rw [List.append_assoc, List.singleton_append]
    exact (List.perm_middle.append_left s.sent).symm.trans hp
  closed_unsent h := by
    rw [hinv.closed_unsent h] at hunsent
    simp at hunsent
  next i f h := by
    obtain ⟨consumed, hsent, hrecv⟩ := hinv.next i f h
    exact ⟨consumed, by simp [hsent], hrecv⟩
  done r h rest hp := by
    have := hinv.done r h (t :: rest) (by simpa using hp)
    simpa using this

theorem MulticallInv.close (hinv : MulticallInv ec tuples s) (hall : s.unsent = []) :
    MulticallInv ec tuples { s with closed := true } where
  room := hinv.room
  perm := hinv.perm
  closed_unsent _ := hall
  next := hinv.next
  done := hinv.done

theorem MulticallInv.receive (hinv : MulticallInv ec tuples s) {i : ℕ} {f : Option BackendGroupRPCResponse}
    {t : MulticallTuple} {buf : List MulticallTuple} (hrecv : s.receiver = .next i f) (hbuf : s.buffer = t :: buf) :
    MulticallInv ec tuples { s with buffer := buf, receiver := receive ec i t } where
  room := by
    have := hinv.room
    simp only [hbuf, List.length_cons] at this ⊢
    omega
  perm := hinv.perm
  closed_unsent := hinv.closed_unsent
  next i' f' h := by
    obtain ⟨consumed, hsent, hall⟩ := hinv.next i f hrecv
    refine ⟨consumed ++ [t], by simp [hsent, hbuf], ?_⟩
    rw [receiveAll_append, hall]
    simpa [receiveAll] using h
  done r h rest _ := by
    -- the receiver returned on `t`: what comes after does not matter
    obtain ⟨consumed, hsent, hall⟩ := hinv.next i f hrecv
    simp only at h
    rw [hsent, hbuf, List.append_assoc, processMulticallResponses_append, hall]
    simp [processMulticallResponses, h]

theorem MulticallInv.receiveClosed (hinv : MulticallInv ec tuples s) {i : ℕ} {f : Option BackendGroupRPCResponse}
    (hrecv : s.receiver = .next i f) (hbuf : s.buffer = []) (hclosed : s.closed = true) :
    MulticallInv ec tuples { s with receiver := .done (closedResult i f) } where
  room := hinv.room
  perm := hinv.perm
  closed_unsent := hinv.closed_unsent
  next _ _ h := by cases h
  done r h rest hp := by
    -- every result was sent and taken: nothing arrives after them
    obtain ⟨consumed, hsent, hall⟩ := hinv.next i f hrecv
    have hperm : s.sent.Perm tuples := by simpa [hinv.closed_unsent hclosed] using hinv.perm
    have hrest : rest = [] := by
      have := (hp.trans hperm.symm).length_eq
      simpa using this
    cases h
    have hloop := processMulticallResponses_append ec consumed [] 0 none
    rw [hall] at hloop
    simpa [hrest, hsent, hbuf, processMulticallResponses] using hloop

theorem multicallInv_invariant (ec : Bool) (tuples : List MulticallTuple) :
    (multicallSystem ec tuples).Invariant (MulticallInv ec tuples) where
  init s h := h ▸ MulticallInv.init
  step s l s' hinv hstep := by
    cases hstep with
    | send hunsent _ => exact hinv.send hunsent
    | close hall _ => exact hinv.close hall
    | receive hrecv hbuf => exact hinv.receive hrecv hbuf
    | receiveClosed hrecv hbuf hclosed => exact hinv.receiveClosed hrecv hbuf hclosed

end Steps

section Runs

variable {ec : Bool} {tuples : List MulticallTuple} {s : MulticallRun}

/-- A goroutine that has not sent always finds room in the channel, before
    the receiver returns and after: no send ever blocks. -/
theorem multicallSystem_send_room (hs : (multicallSystem ec tuples).Reachable s) {t : MulticallTuple}
    (ht : t ∈ s.unsent) : s.buffer.length < tuples.length := by
  have hroom := ((multicallInv_invariant ec tuples).reachable hs).room
  have hpos : 0 < s.unsent.length := List.length_pos_of_mem ht
  omega

/-- Until the receiver returns, some step can be taken: a receive when the
    buffer holds a result, a send or the close when it is empty and open,
    and the return when it is empty and closed. -/
theorem multicallSystem_progress (hs : (multicallSystem ec tuples).Reachable s) {i : ℕ}
    {f : Option BackendGroupRPCResponse} (hrecv : s.receiver = .next i f) :
    ∃ l s', (multicallSystem ec tuples).step s l s' := by
  rcases hbuf : s.buffer with _ | ⟨t, buf⟩
  · cases hclosed : s.closed
    · rcases hunsent : s.unsent with _ | ⟨t, post⟩
      · exact ⟨_, _, .close hunsent hclosed⟩
      · have hroom := multicallSystem_send_room hs (t := t) (by simp [hunsent])
        exact ⟨_, _, @MulticallStep.send ec tuples.length s [] post t hunsent hroom⟩
    · exact ⟨_, _, .receiveClosed hrecv hbuf hclosed⟩
  · exact ⟨_, _, .receive hrecv hbuf⟩

/-- The return still to come: one while the receiver loops. -/
def Received.pending : Received → ℕ
  | .next _ _ => 1
  | .done _ => 0

theorem Received.pending_le_one (r : Received) : r.pending ≤ 1 := by
  cases r <;> simp [Received.pending]

/-- What is left to do: two moves for each goroutine that has not sent, a
    receive for each buffered result, the close, and the return. -/
def MulticallRun.pendingWork (s : MulticallRun) : ℕ :=
  2 * s.unsent.length + s.buffer.length + (if s.closed then 0 else 1) + s.receiver.pending

theorem MulticallStep.pendingWork_lt {cap : ℕ} {l : MulticallEvent} {s' : MulticallRun}
    (h : MulticallStep ec cap s l s') : s'.pendingWork < s.pendingWork := by
  cases h with
  | send hunsent _ =>
    simp only [MulticallRun.pendingWork, hunsent, List.length_append, List.length_cons, List.length_nil]
    omega
  | close _ hopen =>
    simp [MulticallRun.pendingWork, hopen]
  | @receive i f t _ hrecv hbuf =>
    have hle := (Rpc.receive ec i t).pending_le_one
    have hnext : (Received.next i f).pending = 1 := rfl
    simp only [MulticallRun.pendingWork, hrecv, hbuf, List.length_cons, hnext]
    omega
  | receiveClosed hrecv _ _ =>
    simp only [MulticallRun.pendingWork, hrecv, Received.pending]
    omega

/-- Every run is finite: it takes at most as many steps as there was work left. -/
theorem MulticallRun.run_length_le {s' : MulticallRun} {ls : List MulticallEvent}
    (h : (multicallSystem ec tuples).Run s ls s') : ls.length + s'.pendingWork ≤ s.pendingWork := by
  induction h with
  | nil => simp
  | cons hstep _ ih =>
    have := MulticallStep.pendingWork_lt hstep
    simp only [List.length_cons]
    omega

/-- With at least one result, all answered: the result for an order of
    arrival is the response of one that arrived. -/
theorem firstOrLast_mem (ec : Bool) {arrivals : List MulticallTuple} (hne : arrivals ≠ []) :
    ∃ t ∈ arrivals, firstOrLast ec arrivals = some t.response := by
  unfold firstOrLast
  split
  · rename_i t ht
    exact ⟨t, List.mem_of_find?_eq_some ht, rfl⟩
  · obtain ⟨t, ht⟩ := List.getLast?_isSome.mpr hne |> Option.isSome_iff_exists.mp
    exact ⟨t, List.mem_of_getLast? ht, by simp [ht]⟩

/-- Once the receiver has returned, it has returned the first result to
    arrive that settles, or else the last, whatever order the results not
    yet sent arrive in. -/
theorem multicallSystem_returned (hs : (multicallSystem ec tuples).Reachable s) (hne : tuples ≠ [])
    (hans : ∀ t ∈ tuples, t.Answered) {r : Except GoPanic (Option BackendGroupRPCResponse)}
    (hr : s.receiver = .done r) {rest : List MulticallTuple} (hp : (s.sent ++ rest).Perm tuples) :
    r = .ok (firstOrLast ec (s.sent ++ rest)) := by
  have hinv := (multicallInv_invariant ec tuples).reachable hs
  rw [← hinv.done r hr rest hp]
  refine processMulticallResponses_eq ec _ 0 none ?_ fun t ht => hans t (hp.subset ht)
  intro h
  exact hne (List.Perm.eq_nil (h ▸ hp).symm)

end Runs

/-! ## One answer per request -/

theorem translateReqs_length (target : String) :
    ∀ {rs rs' : List RPCReq} {e : Option ForwardError}, translateReqs target rs = .ok (rs', e) →
      rs'.length = rs.length
  | [], _, _, h => by
    cases h
    rfl
  | r :: rs, rs', e, h => by
    simp only [translateReqs] at h
    obtain ⟨⟨r', err⟩, -, h⟩ := except_bind_eq_ok.mp h
    cases err with
    | some _ =>
      cases h
      rfl
    | none =>
      obtain ⟨⟨rs'', err'⟩, hrs, h⟩ := except_bind_eq_ok.mp h
      cases h
      simp [translateReqs_length target hrs]

theorem processResponses_length {reqs : List RPCReq} {translated : List (String × String)} {status : ℕ}
    {rs : List (Option RPCRes)} {out : List RPCRes}
    (h : processResponses reqs translated status rs = .ok (.ok out)) : out.length = reqs.length := by
  by_cases hlen : reqs.length = rs.length
  · rw [processResponses_of_length hlen] at h
    obtain ⟨rs', hrs', h⟩ := except_bind_eq_ok.mp h
    obtain ⟨sorted, hsorted, h⟩ := except_map_eq_ok.mp h
    cases h
    -- the entries are dereferenced one for one, and sorting keeps them all
    have hderef : rs'.length = rs.length := by
      split at hrs' <;> exact except_mapM_length hrs'
    simp only [sortBatchRPCResponse] at hsorted
    obtain ⟨pos, -, hsorted⟩ := except_bind_eq_ok.mp hsorted
    cases hsorted
    simp [List.length_insertionSort, hderef, hlen]
  · simp [processResponses, hlen] at h

/-- An attempt's outcome for `n` requests: as many requests handed back, and
    as many answers when it succeeded. -/
def Aligned (n : ℕ) (p : List RPCReq × Except ForwardError (List RPCRes)) : Prop :=
  p.1.length = n ∧ ∀ out, p.2 = .ok out → out.length = n

theorem doForward_aligned {b : Backend} {reqs : List RPCReq} {http : HttpOutcome}
    {p : List RPCReq × Except ForwardError (List RPCRes)} (h : doForward b reqs false http = .ok p) :
    Aligned reqs.length p := by
  simp only [doForward, Bool.false_eq_true, if_false] at h
  obtain ⟨⟨reqs₁, terr⟩, htr, h⟩ := except_bind_eq_ok.mp h
  -- the translation keeps one request for each
  have hlen := translateReqs_length _ htr
  -- every other path hands the requests back with an error
  have herr : ∀ e, p = (reqs₁, .error e) → Aligned reqs.length p := fun e hp =>
    hp ▸ ⟨hlen, fun _ h => by cases h⟩
  dsimp only at h
  split at h
  · exact herr _ (except_pure_eq_ok.mp h).symm
  · split at h
    · exact herr _ (except_pure_eq_ok.mp h).symm
    · obtain ⟨_, -, h⟩ := except_bind_eq_ok.mp h
      split at h
      · exact herr _ (except_pure_eq_ok.mp h).symm
      · split at h
        · exact herr _ (except_pure_eq_ok.mp h).symm
        · obtain ⟨r, hr, h⟩ := except_bind_eq_ok.mp h
          rw [← except_pure_eq_ok.mp h]
          refine ⟨hlen, fun out hout => ?_⟩
          obtain rfl : r = .ok out := hout
          rw [← hlen]
          exact processResponses_length hr

theorem Upstream.attempt_aligned (u : Upstream) {i : ℕ} {reqs : List RPCReq}
    {p : List RPCReq × Except ForwardError (List RPCRes)} (h : u.attempt false i reqs = .ok p) :
    Aligned reqs.length p := by
  obtain ⟨_, -, h⟩ := except_bind_eq_ok.mp h
  exact doForward_aligned h

theorem afterAttempt_aligned {n : ℕ}
    {retry : ForwardError → List RPCReq → Except GoPanic (List RPCReq × Except ForwardError (List RPCRes))}
    (hretry : ∀ e reqs q, reqs.length = n → retry e reqs = .ok q → Aligned n q)
    {p q : List RPCReq × Except ForwardError (List RPCRes)} (hp : Aligned n p)
    (h : afterAttempt retry p = .ok q) : Aligned n q := by
  obtain ⟨reqs, r⟩ := p
  cases r with
  | ok out =>
    cases h
    exact hp
  | error e =>
    simp only [afterAttempt] at h
    split at h
    · cases h
      exact ⟨hp.1, fun _ h => by cases h⟩
    · exact hretry e reqs q hp.1 h

theorem Upstream.forwardFrom_aligned (u : Upstream) :
    ∀ (retries i : ℕ) {reqs : List RPCReq} {q : List RPCReq × Except ForwardError (List RPCRes)},
      u.forwardFrom false i retries reqs = .ok q → Aligned reqs.length q
  | 0, _, _, _, h => by
    obtain ⟨p, hp, h⟩ := except_bind_eq_ok.mp h
    refine afterAttempt_aligned (fun e reqs' q hlen h => ?_) (u.attempt_aligned hp) h
    cases h
    exact ⟨hlen, fun _ h => by cases h⟩
  | retries + 1, i, _, _, h => by
    obtain ⟨p, hp, h⟩ := except_bind_eq_ok.mp h
    refine afterAttempt_aligned (fun e reqs' q hlen h => ?_) (u.attempt_aligned hp) h
    rw [← hlen]
    exact Upstream.forwardFrom_aligned u retries (i + 1) h

/-- `ForwardRequestToBackendGroup` answers each request once, whichever
    backend answers and whatever the attempts before it left. -/
theorem forwardRequestToBackendGroup_length :
    ∀ (us : List Upstream) {reqs : List RPCReq} {out : List RPCRes},
      forwardRequestToBackendGroup false us reqs = .ok (.ok out) → out.length = reqs.length
  | [], _, _, h => by cases h
  | u :: us, reqs, out, h => by
    simp only [forwardRequestToBackendGroup, Upstream.forward] at h
    split at h
    · obtain ⟨⟨reqs₁, r⟩, hfw, h⟩ := except_bind_eq_ok.mp h
      have hal := u.forwardFrom_aligned u.maxRetries 0 hfw
      cases r with
      | ok out' =>
        have hout : out' = out := by
          cases h
          rfl
        subst hout
        exact hal.2 out' rfl
      | error e =>
        simp only at h
        split at h
        · cases h
        · rw [← hal.1]
          exact forwardRequestToBackendGroup_length us h
    · rename_i hlen
      cases h
      simp only [List.length_nil]
      omega

/-! ## `ExecuteMulticall` -/

/-- What the goroutine of backend `u` sends: a result under the backend's
    name, holding what forwarding the requests to that backend alone
    answered, served by the backend under the group's name, or the error
    it ended in. -/
def SentFor (groupName : String) (rpcReqs : List RPCReq) (u : Upstream) (t : MulticallTuple) : Prop :=
  t.backendName = u.backend.name ∧
    ∃ res, forwardRequestToBackendGroup false [u] rpcReqs = .ok res ∧
      ((∃ rpcRes, res = .ok rpcRes ∧ t.response = ⟨rpcRes, groupName ++ "/" ++ u.backend.name, none⟩) ∨
        ∃ e, res = .error e ∧ t.response = ⟨[], "", some e⟩)

theorem multicallRequest_sentFor {groupName : String} {rpcReqs : List RPCReq} {u : Upstream}
    {t : MulticallTuple} (h : multicallRequest groupName rpcReqs u = .ok t) : SentFor groupName rpcReqs u t := by
  obtain ⟨res, hres, h⟩ := except_bind_eq_ok.mp h
  cases h
  refine ⟨rfl, res, hres, ?_⟩
  cases res with
  | ok rpcRes => exact .inl ⟨rpcRes, rfl, rfl⟩
  | error e => exact .inr ⟨e, rfl, rfl⟩

/-- The goroutine of a backend sends a result that holds an answer unless it
    holds an error. -/
theorem multicallRequest_answered {groupName : String} {rpcReqs : List RPCReq} (hne : rpcReqs ≠ [])
    {u : Upstream} {t : MulticallTuple} (h : multicallRequest groupName rpcReqs u = .ok t) : t.Answered := by
  obtain ⟨res, hres, h⟩ := except_bind_eq_ok.mp h
  cases h
  cases res with
  | ok out =>
    intro _ hnil
    have hlen := forwardRequestToBackendGroup_length [u] hres
    simp only at hnil
    rw [hnil, List.length_nil] at hlen
    exact hne (List.length_eq_zero_iff.mp hlen.symm)
  | error e =>
    intro herr
    cases herr

theorem multicallTargets_ne_nil {β : Type} (isHealthy : β → Bool) {backends : List β} (h : backends ≠ []) :
    multicallTargets isHealthy backends ≠ [] := by
  unfold multicallTargets
  split
  · exact h
  · assumption

theorem multicallTargets_spec {β : Type} (isHealthy : β → Bool) (backends : List β) :
    multicallTargets isHealthy backends =
      if backends.filter isHealthy = [] then backends else backends.filter isHealthy := by
  unfold multicallTargets
  split <;> simp_all

section Goroutines

variable {groupName : String} {rpcReqs : List RPCReq} {targets : List Upstream} {tuples : List MulticallTuple}

/-- One result per target, in the order of the targets, each the one its
    goroutine sends. -/
theorem multicallRequests_sentFor (h : targets.mapM (multicallRequest groupName rpcReqs) = .ok tuples) :
    List.Forall₂ (SentFor groupName rpcReqs) targets tuples :=
  (except_mapM_forall₂ h).imp fun _ _ => multicallRequest_sentFor

theorem multicallRequests_answered (hne : rpcReqs ≠ [])
    (h : targets.mapM (multicallRequest groupName rpcReqs) = .ok tuples) : ∀ t ∈ tuples, t.Answered := by
  have hf := except_mapM_forall₂ h
  clear h
  induction hf with
  | nil => intro t ht; cases ht
  | cons hxy _ ih =>
    intro t ht
    rcases List.mem_cons.mp ht with rfl | ht
    · exact multicallRequest_answered hne hxy
    · exact ih t ht

end Goroutines

/-- The initial state of a multicall's run. -/
def MulticallRun.start (tuples : List MulticallTuple) : MulticallRun := ⟨tuples, [], false, .next 0 none, []⟩

/-- `ExecuteMulticall` of one request over a group with at least one
    backend, every goroutine returning: the targets are the healthy
    backends, or all of them when none is healthy; one result is sent per
    target, holding that backend's own answer to the request or its error;
    for every order of arrival the loop returns the first result that
    settles, or else the last, one of those that arrived; and in every run
    of the goroutines, the channel and the receiver, no send blocks, no
    state is stuck before the receiver returns, the run ends within
    `2k + 2` steps, and what the receiver returned is that result for the
    order the results arrive in. -/
theorem executeMulticall_first_settled (groupName : String) (ec : Bool) (isHealthy : Upstream → Bool)
    {backends : List Upstream} (hback : backends ≠ []) (rpcReq : RPCReq) {tuples : List MulticallTuple}
    (htuples : (multicallTargets isHealthy backends).mapM (multicallRequest groupName [rpcReq]) = .ok tuples) :
    multicallTargets isHealthy backends =
        (if backends.filter isHealthy = [] then backends else backends.filter isHealthy) ∧
      List.Forall₂ (SentFor groupName [rpcReq]) (multicallTargets isHealthy backends) tuples ∧
      (∀ arrivals : List MulticallTuple, arrivals.Perm tuples →
        processMulticallResponses ec 0 none arrivals = .ok (firstOrLast ec arrivals) ∧
          ∃ t ∈ arrivals, firstOrLast ec arrivals = some t.response) ∧
      ∀ s, (multicallSystem ec tuples).Reachable s →
        (∀ t ∈ s.unsent, s.buffer.length < tuples.length) ∧
        (∀ i f, s.receiver = .next i f → ∃ l s', (multicallSystem ec tuples).step s l s') ∧
        (∀ ls s', (multicallSystem ec tuples).Run (MulticallRun.start tuples) ls s' →
          ls.length ≤ 2 * tuples.length + 2) ∧
        ∀ r, s.receiver = .done r → ∀ rest, (s.sent ++ rest).Perm tuples →
          r = .ok (firstOrLast ec (s.sent ++ rest)) := by
  have hans := multicallRequests_answered (List.cons_ne_nil rpcReq []) htuples
  -- one goroutine per target, and there is at least one target
  have hne : tuples ≠ [] := by
    intro h
    have hlen := except_mapM_length htuples
    rw [h, List.length_nil] at hlen
    exact multicallTargets_ne_nil isHealthy hback (List.length_eq_zero_iff.mp hlen.symm)
  refine ⟨multicallTargets_spec isHealthy backends, multicallRequests_sentFor htuples, fun arrivals hp => ?_,
    fun s hs => ?_⟩
  · have harr : arrivals ≠ [] := fun h => hne (List.Perm.eq_nil (h ▸ hp).symm)
    exact ⟨processMulticallResponses_eq ec arrivals 0 none harr fun t ht => hans t (hp.subset ht),
      firstOrLast_mem ec harr⟩
  · refine ⟨fun t ht => multicallSystem_send_room hs ht, fun i f hrecv => multicallSystem_progress hs hrecv,
      fun ls s' hrun => ?_, fun r hr rest hp => multicallSystem_returned hs hne hans hr hp⟩
    have hle := MulticallRun.run_length_le hrun
    simp only [MulticallRun.pendingWork, MulticallRun.start, List.length_nil, Bool.false_eq_true, if_false,
      Received.pending] at hle
    omega

/-- A backend that accepts the transaction. -/
def acceptingUpstream : Upstream where
  backend := ⟨"accepting", receiptsTargetDebugGetRawReceipts⟩
  maxRetries := 0
  exchange := fun _ _ =>
    .response 200 (some (.obj [("jsonrpc", .str "2.0"), ("id", .num "1"), ("result", .str "0x1")]))

/-- A backend that refuses every connection. -/
def refusingUpstream : Upstream where
  backend := ⟨"refusing", receiptsTargetDebugGetRawReceipts⟩
  maxRetries := 0
  exchange := fun _ _ => .transportError "connection refused"

/-- A client's `eth_sendRawTransaction`. -/
def sendRawTransactionRequest : RPCReq := ⟨"2.0", "eth_sendRawTransaction", some (.arr [.str "0x02"]), some (.num "1")⟩

/-- Over a refusing and an accepting backend, both healthy, the results
    settle on the accepting one's, in either order. -/
theorem executeMulticall_first_settled_accepting :
    ∃ tuples, (multicallTargets (fun _ => true) [refusingUpstream, acceptingUpstream]).mapM
        (multicallRequest "main" [sendRawTransactionRequest]) = .ok tuples ∧
      ∀ arrivals : List MulticallTuple, arrivals.Perm tuples →
        processMulticallResponses true 0 none arrivals = .ok (firstOrLast true arrivals) :=
  ⟨_, rfl, fun arrivals hp =>
    ((@executeMulticall_first_settled "main" true (fun _ => true) [refusingUpstream, acceptingUpstream]
      (List.cons_ne_nil _ _) sendRawTransactionRequest _ rfl).2.2.1 arrivals hp).1⟩

end Proxyd.Rpc
