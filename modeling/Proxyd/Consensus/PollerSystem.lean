import Proxyd.Consensus.Candidates
import Proxyd.Lib.Reach

/-
  Proxyd.Consensus.PollerSystem

  The consensus poller as the goroutines of `PollerAsyncHandler.Init`: one
  per backend, each calling `UpdateBackend` again and again, and the group
  goroutine, whose `UpdateBackendGroupConsensus` reads the states they
  write.  One `UpdateBackend` writes its backend's state twice, by
  `setBackendState` and, when the tags are unexpected, by `Ban`, and the
  group goroutine may read the state in between: the two writes are two
  steps here, the poll and the check, with the `safe` and `finalized` the
  backend held before the poll kept for the check.

  A fallback is polled only when the primaries give no candidate, a test
  its goroutine makes just before it polls; the system lets any backend be
  polled at any time, so every run of the poller is one of its runs.  The
  group goroutine reads each backend's state on its own, at its own time:
  what it reads is stated as a state of the backend in some reachable state
  of the system.

  What is proved: in every reachable state a backend that is not a forced
  candidate holds no blocks or `0 < finalized <= safe <= latest`, but
  between the two writes of a poll holds the polled blocks, which are only
  known to be positive (`pollerInv_invariant`).  With a ban longer than the
  update threshold, as the defaults have it, the filter never picks such a
  backend while it holds no blocks (`candidate_blocksPos`), picks it with
  ordered blocks outside that window (`candidate_blocksOrdered`), and the
  group update then publishes `finalized <= safe`
  (`published_finalized_le_safe`); inside the window it can publish a
  `finalized` above `safe` (`published_finalized_above_safe`).
-/

namespace Proxyd.Consensus

open Proxyd.Lib Proxyd.Go

/-- The state the backend goroutines share with the group goroutine. -/
structure PollerState where
  /-- `cp.backendState`. -/
  states : Backend → BackendState
  /-- For a backend whose poll has written its state and not yet checked
      its tags: the `safe` and `finalized` it held before the poll. -/
  pending : Backend → Option (UInt64 × UInt64)
  /-- The time of the last step. -/
  clock : ℕ

/-- A step of a backend goroutine. -/
inductive PollerLabel where
  /-- `UpdateBackend` up to `setBackendState`, with the health and the
      answers of the backend at the time `now`. -/
  | poll (be : Backend) (healthy : Bool) (ans : PollAnswers) (now : ℕ)
  /-- The rest of `UpdateBackend`: the tag check, and the ban it calls for. -/
  | check (be : Backend) (now : ℕ)

namespace PollerState

/-- The first step of `UpdateBackend`. -/
def poll (cfg : PollerConfig) (s : PollerState) (be : Backend) (healthy : Bool) (ans : PollAnswers)
    (now : ℕ) : PollerState :=
  let bs := s.states be
  match pollResult be healthy ans now bs with
  | .banned => { s with clock := now }
  | .unhealthy => { s with states := Function.update s.states be (ban cfg be now bs), clock := now }
  | .failed _ => { s with clock := now }
  | .answered p =>
    { states := Function.update s.states be (p.record now bs)
      pending := Function.update s.pending be (some (bs.safeBlockNumber, bs.finalizedBlockNumber))
      clock := now }

/-- The second step of `UpdateBackend`, after a poll that wrote the state. -/
def check (cfg : PollerConfig) (s : PollerState) (be : Backend) (now : ℕ) : PollerState :=
  match s.pending be with
  | none => { s with clock := now }
  | some (oldSafe, oldFinalized) =>
    { states := Function.update s.states be
        (checkTags cfg be oldSafe oldFinalized now (s.states be))
      pending := Function.update s.pending be none
      clock := now }

end PollerState

/-- The backend goroutines after `Reset`: any backend may take its next
    step at any time not before the last step. -/
def pollerSystem (cfg : PollerConfig) : LTS PollerState PollerLabel where
  init s := s.states = (fun _ => BackendState.zero) ∧ s.pending = fun _ => none
  step s l s' :=
    match l with
    | .poll be healthy ans now => s.clock ≤ now ∧ s.pending be = none ∧
        s' = s.poll cfg be healthy ans now
    | .check be now => s.clock ≤ now ∧ s' = s.check cfg be now

theorem reachable_poll {cfg : PollerConfig} {s : PollerState} (hs : (pollerSystem cfg).Reachable s)
    {be : Backend} {now : ℕ} (hle : s.clock ≤ now) (hp : s.pending be = none) (healthy : Bool)
    (ans : PollAnswers) : (pollerSystem cfg).Reachable (s.poll cfg be healthy ans now) :=
  @LTS.Reachable.step _ _ (pollerSystem cfg) _ _ (.poll be healthy ans now) hs ⟨hle, hp, rfl⟩

theorem reachable_check {cfg : PollerConfig} {s : PollerState} (hs : (pollerSystem cfg).Reachable s)
    {now : ℕ} (hle : s.clock ≤ now) (be : Backend) :
    (pollerSystem cfg).Reachable (s.check cfg be now) :=
  @LTS.Reachable.step _ _ (pollerSystem cfg) _ _ (.check be now) hs ⟨hle, rfl⟩

namespace PollerState

variable (s : PollerState) (cfg : PollerConfig) {be be' : Backend}

/-- A poll writes no other backend's state or pending check. -/
theorem poll_of_ne (hb : be' ≠ be) (healthy : Bool) (ans : PollAnswers) (now : ℕ) :
    (s.poll cfg be healthy ans now).states be' = s.states be' ∧
      (s.poll cfg be healthy ans now).pending be' = s.pending be' := by
  cases hr : pollResult be healthy ans now (s.states be) <;>
    simp [poll, hr, Function.update_of_ne hb]

@[simp] theorem poll_clock (healthy : Bool) (ans : PollAnswers) (now : ℕ) :
    (s.poll cfg be healthy ans now).clock = now := by
  cases hr : pollResult be healthy ans now (s.states be) <;> simp [poll, hr]

/-- A check writes no other backend's state or pending check. -/
theorem check_of_ne (hb : be' ≠ be) (now : ℕ) :
    (s.check cfg be now).states be' = s.states be' ∧ (s.check cfg be now).pending be' = s.pending be' := by
  cases hp : s.pending be <;> simp [check, hp, Function.update_of_ne hb]

@[simp] theorem check_clock (now : ℕ) : (s.check cfg be now).clock = now := by
  cases hp : s.pending be <;> simp [check, hp]

/-- After its check, no poll of the backend awaits one. -/
@[simp] theorem check_pending_self (now : ℕ) : (s.check cfg be now).pending be = none := by
  cases hp : s.pending be <;> simp [check, hp]

end PollerState

/-! ## The invariant of a backend -/

/-- A state with no blocks cannot be picked once its ban is over: it was
    never written by a poll (not in sync), or its ban runs a whole ban
    period past its last update. -/
def ZeroExcluded (cfg : PollerConfig) (bs : BackendState) : Prop :=
  bs.inSync = false ∨ bs.lastUpdate + cfg.banPeriod ≤ bs.bannedUntil

/-- What a backend's state holds between the steps of its goroutine. -/
structure BackendInv (cfg : PollerConfig) (clock : ℕ) (be : Backend) (bs : BackendState)
    (pending : Option (UInt64 × UInt64)) : Prop where
  lastUpdate_le : bs.lastUpdate ≤ clock
  settled : pending = none → be.forcedCandidate = false →
    (BlocksZero bs ∧ ZeroExcluded cfg bs) ∨ BlocksOrdered bs
  polled : pending ≠ none → BlocksPos bs

/-- Every backend's state keeps `BackendInv`. -/
def PollerInv (cfg : PollerConfig) (s : PollerState) : Prop :=
  ∀ be, BackendInv cfg s.clock be (s.states be) (s.pending be)

section Steps

variable {cfg : PollerConfig} {clock now : ℕ} {be : Backend} {bs : BackendState}

theorem BackendInv.mono {pending : Option (UInt64 × UInt64)} (h : BackendInv cfg clock be bs pending)
    (hle : clock ≤ now) : BackendInv cfg now be bs pending :=
  ⟨Nat.le_trans h.lastUpdate_le hle, h.settled, h.polled⟩

theorem backendInv_zero (cfg : PollerConfig) (clock : ℕ) (be : Backend) :
    BackendInv cfg clock be BackendState.zero none where
  lastUpdate_le := Nat.zero_le _
  settled _ _ := .inl ⟨⟨rfl, rfl, rfl⟩, .inl rfl⟩
  polled h := absurd rfl h

/-- A ban leaves no blocks, for a whole ban period past the last update. -/
theorem backendInv_ban (hf : be.forcedCandidate = false) (hlast : bs.lastUpdate ≤ now) :
    BackendInv cfg now be (ban cfg be now bs) none := by
  obtain ⟨hzero, huntil, hupd, -⟩ := ban_of_not_forced cfg hf now bs
  refine ⟨hupd ▸ hlast, fun _ _ => .inl ⟨hzero, .inr ?_⟩, fun h => absurd rfl h⟩
  rw [huntil, hupd]
  omega

theorem blocksPos_of_ordered {bs : BackendState} (h : BlocksOrdered bs) : BlocksPos bs := by
  obtain ⟨hf, hfs, hsl⟩ := h
  rw [UInt64.lt_iff_toNat_lt, UInt64.toNat_zero] at hf
  rw [UInt64.le_iff_toNat_le] at hfs hsl
  simp only [BlocksPos, UInt64.lt_iff_toNat_lt, UInt64.toNat_zero]
  omega

/-- The backend a poll steps. -/
theorem BackendInv.poll {s : PollerState} (h : BackendInv cfg s.clock be (s.states be) (s.pending be))
    (hp : s.pending be = none) (hle : s.clock ≤ now) (healthy : Bool) (ans : PollAnswers) :
    BackendInv cfg now be ((s.poll cfg be healthy ans now).states be)
      ((s.poll cfg be healthy ans now).pending be) := by
  have hlast := Nat.le_trans h.lastUpdate_le hle
  cases hr : pollResult be healthy ans now (s.states be) with
  | banned => simpa [PollerState.poll, hr] using h.mono hle
  | unhealthy =>
    simpa [PollerState.poll, hr, hp] using backendInv_ban (pollResult_eq_unhealthy hr) hlast
  | failed => simpa [PollerState.poll, hr] using h.mono hle
  | answered p =>
    -- the state holds the polled blocks until the check
    have hpos := pollAnswers_eq_ok (pollResult_eq_answered hr)
    simp only [PollerState.poll, hr, Function.update_self]
    exact ⟨Nat.le_refl _, fun h => absurd h (by simp), fun _ => blocksPos_record hpos now _⟩

/-- The tag check of a poll that wrote the state. -/
theorem backendInv_checkTags {oldSafe oldFinalized : UInt64}
    (h : BackendInv cfg clock be bs (some (oldSafe, oldFinalized))) (hle : clock ≤ now) :
    BackendInv cfg now be (checkTags cfg be oldSafe oldFinalized now bs) none := by
  have hlast := Nat.le_trans h.lastUpdate_le hle
  cases hf : be.forcedCandidate
  · rcases checkTags_cases hf oldSafe oldFinalized now bs with hc | ⟨hc, -, -, hfs, hsl⟩
    · rw [hc]
      exact backendInv_ban hf hlast
    · -- the tags were expected: in order, and positive since the poll wrote them
      rw [hc]
      have hpos := h.polled (by simp)
      exact ⟨hlast, fun _ _ => .inr ⟨hpos.2.2, hfs, hsl⟩, fun h => absurd rfl h⟩
  · simp only [checkTags, hf, Bool.not_true, Bool.and_false, Bool.false_eq_true, if_false]
    exact ⟨hlast, fun _ h => absurd h (by simp [hf]), fun h => absurd rfl h⟩

/-- The backend a check steps. -/
theorem BackendInv.check {s : PollerState}
    (h : BackendInv cfg s.clock be (s.states be) (s.pending be)) (hle : s.clock ≤ now) :
    BackendInv cfg now be ((s.check cfg be now).states be) ((s.check cfg be now).pending be) := by
  cases hp : s.pending be with
  | none => simpa [PollerState.check, hp] using h.mono hle
  | some old =>
    obtain ⟨oldSafe, oldFinalized⟩ := old
    simp only [PollerState.check, hp, Function.update_self]
    exact backendInv_checkTags (hp ▸ h) hle

/-- Every step keeps `PollerInv`: the stepped backend by `BackendInv.poll`
    or `BackendInv.check`, the others since only the clock moves. -/
theorem PollerInv.step {s s' : PollerState} {l : PollerLabel} (h : PollerInv cfg s)
    (hstep : (pollerSystem cfg).step s l s') : PollerInv cfg s' := by
  cases l with
  | poll be healthy ans now =>
    obtain ⟨hle, hp, rfl⟩ := hstep
    intro be'
    rw [PollerState.poll_clock]
    by_cases hb : be' = be
    · subst hb
      exact (h be').poll hp hle healthy ans
    · obtain ⟨hst, hpe⟩ := s.poll_of_ne cfg hb healthy ans now
      rw [hst, hpe]
      exact (h be').mono hle
  | check be now =>
    obtain ⟨hle, rfl⟩ := hstep
    intro be'
    rw [PollerState.check_clock]
    by_cases hb : be' = be
    · subst hb
      exact (h be').check hle
    · obtain ⟨hst, hpe⟩ := s.check_of_ne cfg hb now
      rw [hst, hpe]
      exact (h be').mono hle

end Steps

/-- Over every interleaving of the backend goroutines, each backend that is
    not a forced candidate holds no blocks, and then cannot be picked once
    its ban is over, or holds `0 < finalized <= safe <= latest`; between the
    two writes of a poll it holds the polled blocks, all positive. -/
theorem pollerInv_invariant (cfg : PollerConfig) : (pollerSystem cfg).Invariant (PollerInv cfg) where
  init s hs be := by
    obtain ⟨hstates, hpending⟩ := hs
    rw [hstates, hpending]
    exact backendInv_zero cfg s.clock be
  step _ _ _ h hstep := h.step hstep

/-! ## A run of the poller -/

/-- The poller after backend `a` was polled at the time `1`, answering the
    blocks `100`, `90` and `80`, and checked. -/
def polledOnce : PollerState :=
  ((⟨fun _ => .zero, fun _ => none, 0⟩ : PollerState).poll defaultPollerConfig ⟨"a", true, false⟩ true
      ⟨.ok true, .error "", .ok (100, "0x1"), .ok (90, ""), .ok (80, "")⟩ 1).check
    defaultPollerConfig ⟨"a", true, false⟩ 1

theorem polledOnce_reachable : (pollerSystem defaultPollerConfig).Reachable polledOnce := by
  have h₀ : (pollerSystem defaultPollerConfig).Reachable ⟨fun _ => .zero, fun _ => none, 0⟩ :=
    LTS.Reachable.of_init ⟨rfl, rfl⟩
  exact reachable_check (reachable_poll h₀ (Nat.zero_le 1) rfl true _)
    (Nat.le_of_eq (PollerState.poll_clock _ _ _ _ _)) _

theorem polledOnce_pending (be : Backend) : polledOnce.pending be = none := by
  by_cases hb : be = ⟨"a", true, false⟩
  · rw [hb, polledOnce, PollerState.check_pending_self]
  · rw [polledOnce, (PollerState.check_of_ne _ _ hb _).2, (PollerState.poll_of_ne _ _ hb _ _ _).2]

/-- The group of the one backend `a`, a primary. -/
def groupA : BackendGroup := ⟨[⟨"a", true, false⟩], ⟨[("a", false)], by decide⟩⟩

/-- `polledOnce` with `a` polled again at the time `2`: its `safe` block
    gone back to `85` and its `finalized` block gone up to `88`, its check
    still to come. -/
def polledTwice : PollerState :=
  polledOnce.poll defaultPollerConfig ⟨"a", true, false⟩ true
    ⟨.ok true, .error "", .ok (101, "0x2"), .ok (85, ""), .ok (88, "")⟩ 2

theorem polledOnce_clock : polledOnce.clock = 1 := by
  rw [polledOnce, PollerState.check_clock]

theorem polledTwice_reachable : (pollerSystem defaultPollerConfig).Reachable polledTwice :=
  reachable_poll polledOnce_reachable (Nat.le_of_lt (by rw [polledOnce_clock]; decide))
    (polledOnce_pending _) true _

/-! ## What the group goroutine reads -/

section Candidates

variable {cfg : PollerConfig} {healthy : Backend → Bool} {states : Backend → BackendState} {now : ℕ}

/-- A backend that is not forced and that the filter picks: its blocks are
    positive, and in order when no poll of it awaits its check. -/
theorem BackendInv.of_passesChecks {clock : ℕ} {be : Backend} {bs : BackendState}
    {pending : Option (UInt64 × UInt64)} (hcfg : cfg.maxUpdateThreshold < cfg.banPeriod)
    (h : BackendInv cfg clock be bs pending) (hf : be.forcedCandidate = false) {healthy' : Bool}
    (hp : passesChecks cfg healthy' now be bs = true) :
    BlocksPos bs ∧ (pending = none → BlocksOrdered bs) := by
  obtain ⟨hban, -, -, hsync, hfresh⟩ := passesChecks_of_not_forced hf hp
  have hordered : pending = none → BlocksOrdered bs := by
    intro hnone
    rcases h.settled hnone hf with ⟨-, hsync' | hlong⟩ | hord
    · rw [hsync] at hsync'
      cases hsync'
    · -- a state with no blocks is still banned or no longer fresh
      omega
    · exact hord
  refine ⟨?_, hordered⟩
  cases hpending : pending with
  | none => exact blocksPos_of_ordered (hordered hpending)
  | some old => exact h.polled (by simp [hpending])

/-- With a ban longer than the update threshold, every backend the filter
    picks that is not forced has positive blocks, whenever the group
    goroutine read each backend's state. -/
theorem candidate_blocksPos (hcfg : cfg.maxUpdateThreshold < cfg.banPeriod)
    (hread : ∀ be, ∃ s, (pollerSystem cfg).Reachable s ∧ s.clock ≤ now ∧ states be = s.states be)
    {backends : List Backend} {be : Backend} {bs : BackendState}
    (hmem : (be, bs) ∈ (filterCandidates cfg healthy states now backends).entries)
    (hf : be.forcedCandidate = false) : BlocksPos bs := by
  obtain ⟨-, hbs, hp⟩ := collected_of_mem_filterCandidates hmem
  obtain ⟨s, hs, hle, hstate⟩ := hread be
  have hinv := ((pollerInv_invariant cfg).reachable hs be).mono hle
  rw [← hstate, ← hbs] at hinv
  exact (hinv.of_passesChecks hcfg hf hp).1

/-- Read between the two writes of its second poll, `a` is a candidate
    with the polled blocks. -/
theorem candidate_blocksPos_polledTwice : BlocksPos (polledTwice.states ⟨"a", true, false⟩) :=
  @candidate_blocksPos defaultPollerConfig (fun _ => true) polledTwice.states 2 (by decide)
    (fun _ => ⟨polledTwice, polledTwice_reachable, Nat.le_of_eq (PollerState.poll_clock _ _ _ _ _), rfl⟩)
    [⟨"a", true, false⟩] ⟨"a", true, false⟩ _ (by decide +kernel) rfl

/-- Read outside the window between a poll's two writes, every backend the
    filter picks that is not forced has `0 < finalized <= safe <= latest`. -/
theorem candidate_blocksOrdered (hcfg : cfg.maxUpdateThreshold < cfg.banPeriod)
    (hread : ∀ be, ∃ s, (pollerSystem cfg).Reachable s ∧ s.clock ≤ now ∧ s.pending be = none ∧
      states be = s.states be)
    {backends : List Backend} {be : Backend} {bs : BackendState}
    (hmem : (be, bs) ∈ (filterCandidates cfg healthy states now backends).entries)
    (hf : be.forcedCandidate = false) : BlocksOrdered bs := by
  obtain ⟨-, hbs, hp⟩ := collected_of_mem_filterCandidates hmem
  obtain ⟨s, hs, hle, hnone, hstate⟩ := hread be
  have hinv := ((pollerInv_invariant cfg).reachable hs be).mono hle
  rw [← hstate, ← hbs] at hinv
  exact (hinv.of_passesChecks hcfg hf hp).2 hnone

/-- Over candidates whose blocks are in order, the lowest loop's finalized
    block is not above its safe block. -/
theorem lowest_finalized_le_safe {B : Type} {cands : List (B × BackendState)}
    (hord : ∀ p ∈ cands, BlocksOrdered p.2) : (lowest cands).finalizedBlock ≤ (lowest cands).safeBlock := by
  by_cases hne : cands = []
  · subst hne
    exact UInt64.le_refl _
  · have hpos : ∀ p ∈ cands, BlocksPos p.2 := fun p hp => blocksPos_of_ordered (hord p hp)
    -- the lowest safe block is some candidate's, whose finalized block is below it
    obtain ⟨⟨p, hp, hsafe⟩, -⟩ := lowest_safe_isLeast hne fun p hp =>
      UInt64.lt_iff_toNat_lt.mp (hpos p hp).2.1
    obtain ⟨-, hfin⟩ := lowest_finalized_isLeast hne fun p hp =>
      UInt64.lt_iff_toNat_lt.mp (hpos p hp).2.2
    have hfs := UInt64.le_iff_toNat_le.mp (hord p hp).2.1
    rw [UInt64.le_iff_toNat_le, hsafe]
    exact Nat.le_trans (hfin p hp) hfs

/-- With a ban longer than the update threshold, no forced backend and each
    backend's state read outside the window between a poll's two writes,
    `UpdateBackendGroupConsensus` publishes a `finalized` block not above
    its `safe` block, whatever the walk does and in whatever order it
    ranges over the candidates. -/
theorem published_finalized_le_safe {bg : BackendGroup} (hcfg : cfg.maxUpdateThreshold < cfg.banPeriod)
    (hread : ∀ be, ∃ s, (pollerSystem cfg).Reachable s ∧ s.clock ≤ now ∧ s.pending be = none ∧
      states be = s.states be)
    (hforced : ∀ be ∈ bg.backends, be.forcedCandidate = false) {cands : CandidateMap Backend}
    (hperm : cands.entries.Perm (getConsensusCandidates cfg bg healthy states now).entries)
    {ord : RangeOrder cands.keys} {fetch : FetchBlock Backend} {tracker : ConsensusTrackerState}
    {fuel : ℕ} {res : ConsensusUpdate Backend}
    (h : updateBackendGroupConsensus bg.backends cands ord fetch tracker fuel = some res) :
    res.tracker.finalized ≤ res.tracker.safe := by
  -- every candidate is a backend of the group read with ordered blocks
  have hord : ∀ p ∈ cands.entries, BlocksOrdered p.2 := by
    intro ⟨be, bs⟩ hp
    have hsub : ∀ {l : List Backend}, l ⊆ bg.backends →
        (be, bs) ∈ (filterCandidates cfg healthy states now l).entries → BlocksOrdered bs :=
      fun hl hmem => candidate_blocksOrdered hcfg hread hmem
        (hforced be (hl (collected_of_mem_filterCandidates hmem).1))
    -- primaries and fallbacks are both among the group's backends
    rcases (mem_getConsensusCandidates bg _).mp (hperm.subset hp) with hmem | ⟨-, hmem⟩ <;>
      exact hsub (List.filter_subset_self _) hmem
  obtain ⟨hsafe, hfin⟩ := updateBackendGroupConsensus_safe_finalized h
  rw [hsafe, hfin]
  exact lowest_finalized_le_safe hord

/-- The update over `polledOnce`, whose `a` holds `100`, `90` and `80`. -/
theorem published_finalized_le_safe_polledOnce :
    ∃ res : ConsensusUpdate Backend,
      updateBackendGroupConsensus groupA.backends
          ⟨(getConsensusCandidates defaultPollerConfig groupA (fun _ => true) polledOnce.states 1).entries,
            LinkedMap.nodup _⟩
          ⟨fun _ => (getConsensusCandidates defaultPollerConfig groupA (fun _ => true) polledOnce.states
            1).keys, fun _ => List.Perm.refl _⟩
          (fun _ _ _ => .ok (100, "0x1")) ⟨0, 0, 0⟩ 1 = some res ∧
        res.tracker.finalized ≤ res.tracker.safe := by
  have hrun : (updateBackendGroupConsensus groupA.backends
      ⟨(getConsensusCandidates defaultPollerConfig groupA (fun _ => true) polledOnce.states 1).entries,
        LinkedMap.nodup _⟩
      ⟨fun _ => (getConsensusCandidates defaultPollerConfig groupA (fun _ => true) polledOnce.states
        1).keys, fun _ => List.Perm.refl _⟩
      (fun _ _ _ => .ok (100, "0x1")) ⟨0, 0, 0⟩ 1).isSome = true := by
    decide +kernel
  obtain ⟨res, hres⟩ := Option.isSome_iff_exists.mp hrun
  exact ⟨res, hres, @published_finalized_le_safe defaultPollerConfig (fun _ => true) polledOnce.states 1
    groupA (by decide)
    (fun be => ⟨polledOnce, polledOnce_reachable, Nat.le_of_eq polledOnce_clock, polledOnce_pending be, rfl⟩)
    (by decide) _ (List.Perm.refl _) _ _ _ _ _ hres⟩

end Candidates

/-- The group update may read a backend between the two writes of its poll:
    until its check bans it, `a` of `polledTwice` is the group's one
    candidate, and an update that runs then publishes a `finalized` block
    above the `safe` block. -/
theorem published_finalized_above_safe :
    ∃ s : PollerState, (pollerSystem defaultPollerConfig).Reachable s ∧
      ∃ (bg : BackendGroup) (cands : CandidateMap Backend),
        (∀ be ∈ bg.backends, be.forcedCandidate = false) ∧
        cands.entries.Perm (getConsensusCandidates defaultPollerConfig bg (fun _ => true) s.states
          s.clock).entries ∧
        ∃ (ord : RangeOrder cands.keys) (fetch : FetchBlock Backend) (res : ConsensusUpdate Backend),
          updateBackendGroupConsensus bg.backends cands ord fetch ⟨0, 0, 0⟩ 1 = some res ∧
            res.tracker.safe < res.tracker.finalized := by
  -- the update reads `a` with safe `85` and finalized `88`, and agrees on its head at once
  have hrun : (updateBackendGroupConsensus groupA.backends
      ⟨(getConsensusCandidates defaultPollerConfig groupA (fun _ => true) polledTwice.states
        polledTwice.clock).entries, LinkedMap.nodup _⟩
      ⟨fun _ => (getConsensusCandidates defaultPollerConfig groupA (fun _ => true) polledTwice.states
        polledTwice.clock).keys, fun _ => List.Perm.refl _⟩
      (fun _ _ _ => .ok (101, "0x2")) ⟨0, 0, 0⟩ 1).map
        (fun res => decide (res.tracker.safe < res.tracker.finalized)) = some true := by
    decide +kernel
  obtain ⟨res, hres, hlt⟩ := Option.map_eq_some_iff.mp hrun
  exact ⟨polledTwice, polledTwice_reachable, groupA, _, by decide, List.Perm.refl _, _, _, res, hres,
    of_decide_eq_true hlt⟩

end Proxyd.Consensus
