import Proxyd.Consensus.Poller
import Proxyd.Lib.LinkedMap
import Proxyd.Lib.Except
import Proxyd.Go.Json

/-
  Proxyd.Consensus.Candidates

  The per-backend half of `consensus_poller.go`: `UpdateBackend`, which
  polls one backend and records what it answered or bans it, with `Ban`,
  `Reset` and `checkExpectedBlockTags`; and the candidate filter
  `FilterCandidates` with `getConsensusCandidates`, which choose the
  backends whose recorded state `UpdateBackendGroupConsensus` reads.

  Go-level choices of the embedding:
  * a backend is told apart by its name, unique in the configuration, and
    carries the two consensus options the poller reads;
  * `IsHealthy()` is the backend's answer at the time of the call, an
    argument: it reads the backend's sliding windows, which `doForward`
    keeps;
  * the poll's requests (`eth_syncing`, `net_peerCount`,
    `eth_getBlockByNumber` of `latest`, `safe` and `finalized`) are given
    by their decoded answers or their errors;
  * the clock is read once per call, in nanoseconds since Go's zero time,
    as the times of `BackendState` are;
  * the map of `FilterCandidates` is a `LinkedMap`, whose insertion order
    is one order of `range`: the highest block and the lagging backends it
    finds do not depend on that order.
-/

namespace Proxyd.Consensus

open Proxyd.Lib Proxyd.Go

/-- The options of `NewConsensusPoller` that the poll and the filter read;
    durations in nanoseconds. -/
structure PollerConfig where
  minPeerCount : UInt64
  banPeriod : ℕ
  maxUpdateThreshold : ℕ
  maxBlockLag : UInt64
  deriving DecidableEq, Repr

/-- The defaults of `NewConsensusPoller`. -/
def defaultPollerConfig : PollerConfig where
  minPeerCount := 3
  banPeriod := 5 * 60 * 1000000000
  maxUpdateThreshold := 30 * 1000000000
  maxBlockLag := 8

/-- A `Backend`, with the consensus options the poller reads. -/
structure Backend where
  name : String
  skipPeerCountCheck : Bool
  forcedCandidate : Bool
  deriving DecidableEq, Repr

/-- `&backendState{}`: the state `Reset` gives every backend. -/
def BackendState.zero : BackendState := ⟨0, "", 0, 0, 0, false, 0, 0⟩

/-- `IsBanned()` at the time `now`. -/
def BackendState.isBanned (bs : BackendState) (now : ℕ) : Bool := decide (now < bs.bannedUntil)

/-- `Ban(be)`: banned for `banPeriod`, its blocks forgotten so that it may
    come back at any block; a forced candidate is never banned. -/
def ban (cfg : PollerConfig) (be : Backend) (now : ℕ) (bs : BackendState) : BackendState :=
  if be.forcedCandidate then bs
  else
    { bs with
      bannedUntil := now + cfg.banPeriod
      latestBlockNumber := 0
      safeBlockNumber := 0
      finalizedBlockNumber := 0 }

/-- `checkExpectedBlockTags`: `finalized` and `safe` never go back, and
    `finalized <= safe <= latest`. -/
def checkExpectedBlockTags (currentLatest oldSafe currentSafe oldFinalized currentFinalized : UInt64) :
    Bool :=
  decide (currentFinalized ≥ oldFinalized) && decide (currentSafe ≥ oldSafe) &&
    decide (currentFinalized ≤ currentSafe) && decide (currentSafe ≤ currentLatest)

/-- `setBackendState`, which also stamps the update with the time. -/
def setBackendState (bs : BackendState) (peerCount : UInt64) (inSync : Bool)
    (latestBlockNumber : UInt64) (latestBlockHash : String)
    (safeBlockNumber finalizedBlockNumber : UInt64) (now : ℕ) : BackendState :=
  { bs with
    peerCount := peerCount
    inSync := inSync
    latestBlockNumber := latestBlockNumber
    latestBlockHash := latestBlockHash
    finalizedBlockNumber := finalizedBlockNumber
    safeBlockNumber := safeBlockNumber
    lastUpdate := now }

/-! ## `UpdateBackend` -/

/-- What the backend answers to the requests of one poll, each decoded or
    failed. -/
structure PollAnswers where
  inSync : Except String Bool
  peerCount : Except String UInt64
  latest : Except String (UInt64 × String)
  safe : Except String (UInt64 × String)
  finalized : Except String (UInt64 × String)

/-- What a poll that got all its answers writes. -/
structure Polled where
  peerCount : UInt64
  inSync : Bool
  latestBlockNumber : UInt64
  latestBlockHash : String
  safeBlockNumber : UInt64
  finalizedBlockNumber : UInt64

/-- A peer count or block number that must not be zero: a zero is counted
    as an intermittent error. -/
def nonZero (x : UInt64) : Except Bool UInt64 := if x = 0 then throw true else pure x

/-- The peer count of a poll: `0` when its check is skipped, and then not
    asked. -/
def pollPeerCount (be : Backend) (ans : PollAnswers) : Except Bool UInt64 :=
  if be.skipPeerCountCheck then pure 0
  else do
    let peerCount ← ans.peerCount.mapError fun _ => false
    nonZero peerCount

/-- The answers in the order `UpdateBackend` reads them.  It returns at the
    first that failed (`.error false`) or that is a zero peer count or
    block number (`.error true`). -/
def pollAnswers (be : Backend) (ans : PollAnswers) : Except Bool Polled := do
  let inSync ← ans.inSync.mapError fun _ => false
  let peerCount ← pollPeerCount be ans
  let (latestBlockNumber, latestBlockHash) ← ans.latest.mapError fun _ => false
  let latestBlockNumber ← nonZero latestBlockNumber
  let (safeBlockNumber, _) ← ans.safe.mapError fun _ => false
  let safeBlockNumber ← nonZero safeBlockNumber
  let (finalizedBlockNumber, _) ← ans.finalized.mapError fun _ => false
  let finalizedBlockNumber ← nonZero finalizedBlockNumber
  pure ⟨peerCount, inSync, latestBlockNumber, latestBlockHash, safeBlockNumber, finalizedBlockNumber⟩

/-- How a poll ends before the block tags are checked. -/
inductive PollResult where
  /-- `bs.IsBanned()`: the backend is skipped. -/
  | banned
  /-- Not healthy and not a forced candidate: the backend is banned. -/
  | unhealthy
  /-- An answer failed or was zero; `intermittentError` when it was counted. -/
  | failed (intermittentError : Bool)
  /-- Every answer came: the state is written. -/
  | answered (p : Polled)

/-- The first part of `UpdateBackend`, up to `setBackendState`. -/
def pollResult (be : Backend) (healthy : Bool) (ans : PollAnswers) (now : ℕ) (bs : BackendState) :
    PollResult :=
  if bs.isBanned now then .banned
  else if !healthy && !be.forcedCandidate then .unhealthy
  else
    match pollAnswers be ans with
    | .error intermittentError => .failed intermittentError
    | .ok p => .answered p

/-- `setBackendState` with what the poll read. -/
def Polled.record (p : Polled) (now : ℕ) (bs : BackendState) : BackendState :=
  setBackendState bs p.peerCount p.inSync p.latestBlockNumber p.latestBlockHash p.safeBlockNumber
    p.finalizedBlockNumber now

/-- The end of `UpdateBackend`, once the state is written: the written tags
    are checked against the `safe` and `finalized` recorded before the
    poll, and a backend that is not a forced candidate is banned when they
    are unexpected. -/
def checkTags (cfg : PollerConfig) (be : Backend) (oldSafe oldFinalized : UInt64) (now : ℕ)
    (bs : BackendState) : BackendState :=
  if !checkExpectedBlockTags bs.latestBlockNumber oldSafe bs.safeBlockNumber oldFinalized
      bs.finalizedBlockNumber && !be.forcedCandidate then ban cfg be now bs
  else bs

/-- `UpdateBackend`: the backend's state afterwards, and whether the poll
    counted an intermittent error in the backend's sliding window. -/
def updateBackend (cfg : PollerConfig) (be : Backend) (healthy : Bool) (ans : PollAnswers) (now : ℕ)
    (bs : BackendState) : BackendState × Bool :=
  match pollResult be healthy ans now bs with
  | .banned => (bs, false)
  | .unhealthy => (ban cfg be now bs, false)
  | .failed intermittentError => (bs, intermittentError)
  | .answered p =>
    (checkTags cfg be bs.safeBlockNumber bs.finalizedBlockNumber now (p.record now bs), false)

/-! ## What a backend's blocks can be -/

/-- No blocks recorded: after `Reset` or a ban. -/
def BlocksZero (bs : BackendState) : Prop :=
  bs.latestBlockNumber = 0 ∧ bs.safeBlockNumber = 0 ∧ bs.finalizedBlockNumber = 0

/-- All three blocks recorded, as a poll that got its answers writes them. -/
def BlocksPos (bs : BackendState) : Prop :=
  0 < bs.latestBlockNumber ∧ 0 < bs.safeBlockNumber ∧ 0 < bs.finalizedBlockNumber

/-- The blocks as `checkExpectedBlockTags` expects them:
    `0 < finalized <= safe <= latest`. -/
def BlocksOrdered (bs : BackendState) : Prop :=
  0 < bs.finalizedBlockNumber ∧ bs.finalizedBlockNumber ≤ bs.safeBlockNumber ∧
    bs.safeBlockNumber ≤ bs.latestBlockNumber

theorem ne_zero_iff_pos (a : UInt64) : a ≠ 0 ↔ 0 < a := by
  rw [Ne, uint64_eq_zero_iff, UInt64.lt_iff_toNat_lt, UInt64.toNat_zero]
  omega

theorem nonZero_eq_ok {x y : UInt64} (h : nonZero x = .ok y) : y = x ∧ 0 < x := by
  unfold nonZero at h
  split at h
  · cases h
  · next hx => exact ⟨(except_pure_eq_ok.mp h).symm, (ne_zero_iff_pos x).mp hx⟩

/-- A poll that got its answers read three nonzero blocks. -/
theorem pollAnswers_eq_ok {be : Backend} {ans : PollAnswers} {p : Polled}
    (h : pollAnswers be ans = .ok p) :
    0 < p.latestBlockNumber ∧ 0 < p.safeBlockNumber ∧ 0 < p.finalizedBlockNumber := by
  simp only [pollAnswers, except_bind_eq_ok, except_mapError_eq_ok, except_pure_eq_ok] at h
  obtain ⟨-, -, -, -, ⟨latest, hash⟩, -, latest', hl, ⟨safe, _⟩, -, safe', hs, ⟨fin, _⟩, -, fin', hf,
    rfl⟩ := h
  obtain ⟨rfl, hl⟩ := nonZero_eq_ok hl
  obtain ⟨rfl, hs⟩ := nonZero_eq_ok hs
  obtain ⟨rfl, hf⟩ := nonZero_eq_ok hf
  exact ⟨hl, hs, hf⟩

theorem pollResult_eq_unhealthy {be : Backend} {healthy : Bool} {ans : PollAnswers} {now : ℕ}
    {bs : BackendState} (h : pollResult be healthy ans now bs = .unhealthy) :
    be.forcedCandidate = false := by
  unfold pollResult at h
  split_ifs at h with hb hu
  · simp only [Bool.and_eq_true, Bool.not_eq_true'] at hu
    exact hu.2
  · split at h <;> cases h

theorem pollResult_eq_answered {be : Backend} {healthy : Bool} {ans : PollAnswers} {now : ℕ}
    {bs : BackendState} {p : Polled} (h : pollResult be healthy ans now bs = .answered p) :
    pollAnswers be ans = .ok p := by
  unfold pollResult at h
  split_ifs at h
  split at h
  · cases h
  · next hok => cases h; exact hok

@[simp] theorem ban_of_forced {cfg : PollerConfig} {be : Backend} (h : be.forcedCandidate = true)
    (now : ℕ) (bs : BackendState) : ban cfg be now bs = bs := by
  simp [ban, h]

/-- A ban of a backend that is not a forced candidate. -/
theorem ban_of_not_forced (cfg : PollerConfig) {be : Backend} (h : be.forcedCandidate = false)
    (now : ℕ) (bs : BackendState) :
    BlocksZero (ban cfg be now bs) ∧ (ban cfg be now bs).bannedUntil = now + cfg.banPeriod ∧
      (ban cfg be now bs).lastUpdate = bs.lastUpdate ∧ (ban cfg be now bs).inSync = bs.inSync := by
  simp [ban, h, BlocksZero]

theorem checkExpectedBlockTags_eq_true {latest oldSafe safe oldFinalized finalized : UInt64} :
    checkExpectedBlockTags latest oldSafe safe oldFinalized finalized = true ↔
      oldFinalized ≤ finalized ∧ oldSafe ≤ safe ∧ finalized ≤ safe ∧ safe ≤ latest := by
  simp [checkExpectedBlockTags, and_assoc]

theorem checkTags_of_expected {cfg : PollerConfig} {be : Backend} {oldSafe oldFinalized : UInt64} {now : ℕ}
    {bs : BackendState} (hc : checkExpectedBlockTags bs.latestBlockNumber oldSafe bs.safeBlockNumber oldFinalized
      bs.finalizedBlockNumber = true) :
    checkTags cfg be oldSafe oldFinalized now bs = bs := by
  simp [checkTags, hc]

theorem checkTags_of_unexpected {cfg : PollerConfig} {be : Backend} (hf : be.forcedCandidate = false)
    {oldSafe oldFinalized : UInt64} {now : ℕ} {bs : BackendState}
    (hc : checkExpectedBlockTags bs.latestBlockNumber oldSafe bs.safeBlockNumber oldFinalized
      bs.finalizedBlockNumber = false) :
    checkTags cfg be oldSafe oldFinalized now bs = ban cfg be now bs := by
  simp [checkTags, hc, hf]

/-- The tag check of a backend that is not a forced candidate either bans
    it or leaves tags that did not go back and are in order. -/
theorem checkTags_cases {cfg : PollerConfig} {be : Backend} (hf : be.forcedCandidate = false)
    (oldSafe oldFinalized : UInt64) (now : ℕ) (bs : BackendState) :
    checkTags cfg be oldSafe oldFinalized now bs = ban cfg be now bs ∨
      (checkTags cfg be oldSafe oldFinalized now bs = bs ∧ oldFinalized ≤ bs.finalizedBlockNumber ∧
        oldSafe ≤ bs.safeBlockNumber ∧ bs.finalizedBlockNumber ≤ bs.safeBlockNumber ∧
        bs.safeBlockNumber ≤ bs.latestBlockNumber) := by
  cases hc : checkExpectedBlockTags bs.latestBlockNumber oldSafe bs.safeBlockNumber oldFinalized
      bs.finalizedBlockNumber
  · exact .inl (checkTags_of_unexpected hf hc)
  · exact .inr ⟨checkTags_of_expected hc, checkExpectedBlockTags_eq_true.mp hc⟩

@[simp] theorem record_lastUpdate (p : Polled) (now : ℕ) (bs : BackendState) :
    (p.record now bs).lastUpdate = now := rfl

@[simp] theorem record_bannedUntil (p : Polled) (now : ℕ) (bs : BackendState) :
    (p.record now bs).bannedUntil = bs.bannedUntil := rfl

theorem blocksPos_record {p : Polled} (hp : 0 < p.latestBlockNumber ∧ 0 < p.safeBlockNumber ∧
    0 < p.finalizedBlockNumber) (now : ℕ) (bs : BackendState) : BlocksPos (p.record now bs) :=
  hp

/-- The tags of a poll as `checkExpectedBlockTags` accepts them against the
    `safe` and `finalized` recorded before it. -/
def Polled.TagsExpected (p : Polled) (bs : BackendState) : Prop :=
  bs.finalizedBlockNumber ≤ p.finalizedBlockNumber ∧ bs.safeBlockNumber ≤ p.safeBlockNumber ∧
    p.finalizedBlockNumber ≤ p.safeBlockNumber ∧ p.safeBlockNumber ≤ p.latestBlockNumber

/-- The checks `FilterCandidates` makes of one backend before it looks at
    the lag: a forced candidate is taken at once; any other must not be
    banned, be healthy, have enough peers unless that check is skipped, be
    in sync and have been updated within `maxUpdateThreshold`. -/
def passesChecks (cfg : PollerConfig) (healthy : Bool) (now : ℕ) (be : Backend) (bs : BackendState) :
    Bool :=
  be.forcedCandidate ||
    (!bs.isBanned now && healthy &&
      (be.skipPeerCountCheck || !decide (bs.peerCount < cfg.minPeerCount)) && bs.inSync &&
      !decide (bs.lastUpdate + cfg.maxUpdateThreshold < now))

/-- One iteration of the first loop: `candidates[be] = bs` for a backend
    that passes the checks, with `bs` its state read by `GetBackendState`. -/
def collectStep (cfg : PollerConfig) (healthy : Backend → Bool) (states : Backend → BackendState)
    (now : ℕ) (m : LinkedMap Backend BackendState) (be : Backend) : LinkedMap Backend BackendState :=
  if passesChecks cfg (healthy be) now be (states be) then m.put be (states be) else m

/-- The first loop of `FilterCandidates`. -/
def collectCandidates (cfg : PollerConfig) (healthy : Backend → Bool)
    (states : Backend → BackendState) (now : ℕ) (backends : List Backend) :
    LinkedMap Backend BackendState :=
  backends.foldl (collectStep cfg healthy states now) LinkedMap.empty

/-- The highest latest block among the candidates, from `0`. -/
def highestLatestBlock (cands : List (Backend × BackendState)) : UInt64 :=
  cands.foldl (fun highest e =>
    if e.2.latestBlockNumber > highest then e.2.latestBlockNumber else highest) 0

/-- The candidates more than `maxBlockLag` blocks behind the highest. -/
def laggingBackends (cfg : PollerConfig) (highest : UInt64) (cands : List (Backend × BackendState)) :
    List Backend :=
  (cands.filter fun e => decide (highest - e.2.latestBlockNumber > cfg.maxBlockLag)).map Prod.fst

/-- `FilterCandidates(backends)`: the backends that pass the checks, less
    those that lag behind the highest of them. -/
def filterCandidates (cfg : PollerConfig) (healthy : Backend → Bool)
    (states : Backend → BackendState) (now : ℕ) (backends : List Backend) :
    LinkedMap Backend BackendState :=
  let candidates := collectCandidates cfg healthy states now backends
  let highest := highestLatestBlock candidates.entries
  (laggingBackends cfg highest candidates.entries).foldl LinkedMap.remove candidates

/-- The fields of `BackendGroup` the poller reads: its backends and
    `FallbackBackends`, from a backend's name to whether it is a fallback. -/
structure BackendGroup where
  backends : List Backend
  fallbackBackends : GoMap Bool

/-- `Fallbacks()`. -/
def BackendGroup.fallbacks (bg : BackendGroup) : List Backend :=
  bg.backends.filter fun a => bg.fallbackBackends.get a.name = some true

/-- `Primaries()`: a backend missing from `FallbackBackends` is neither. -/
def BackendGroup.primaries (bg : BackendGroup) : List Backend :=
  bg.backends.filter fun a => bg.fallbackBackends.get a.name = some false

/-- `getConsensusCandidates`: the candidates among the primaries, or among
    the fallbacks when no primary is one. -/
def getConsensusCandidates (cfg : PollerConfig) (bg : BackendGroup) (healthy : Backend → Bool)
    (states : Backend → BackendState) (now : ℕ) : LinkedMap Backend BackendState :=
  let healthyPrimaries := filterCandidates cfg healthy states now bg.primaries
  if 0 < healthyPrimaries.size then healthyPrimaries
  else filterCandidates cfg healthy states now bg.fallbacks

section Filter

variable {cfg : PollerConfig} {healthy : Backend → Bool} {states : Backend → BackendState} {now : ℕ}

/-- A candidate of the first loop: the state read for its backend, which
    passes the checks. -/
def Collected (cfg : PollerConfig) (healthy : Backend → Bool) (states : Backend → BackendState)
    (now : ℕ) (e : Backend × BackendState) : Prop :=
  e.2 = states e.1 ∧ passesChecks cfg (healthy e.1) now e.1 e.2 = true

theorem mem_collectStep {m : LinkedMap Backend BackendState} (hm : ∀ e ∈ m.entries, e.2 = states e.1)
    (be : Backend) (e : Backend × BackendState) :
    e ∈ (collectStep cfg healthy states now m be).entries ↔
      e ∈ m.entries ∨ (e.1 = be ∧ Collected cfg healthy states now e) := by
  unfold collectStep
  split
  · next hp =>
    rw [LinkedMap.mem_entries_put]
    constructor
    · rintro (rfl | ⟨hmem, -⟩)
      · exact .inr ⟨rfl, rfl, hp⟩
      · exact .inl hmem
    · rintro (hmem | ⟨rfl, hv, -⟩)
      · by_cases hk : e.1 = be
        · -- the entry already there holds the same state
          left
          rw [← hk, ← hm e hmem]
        · exact .inr ⟨hmem, hk⟩
      · left
        rw [← hv]
  · next hp =>
    refine ⟨.inl, ?_⟩
    rintro (hmem | ⟨rfl, hv, hpe⟩)
    · exact hmem
    · rw [← hv] at hp
      exact absurd hpe hp

/-- The first loop keeps the backends of the list that pass the checks,
    each with its state. -/
theorem mem_collectCandidates (backends : List Backend) (e : Backend × BackendState) :
    e ∈ (collectCandidates cfg healthy states now backends).entries ↔
      e.1 ∈ backends ∧ Collected cfg healthy states now e := by
  -- the loop from any map whose entries hold the states of their backends
  suffices h : ∀ (m : LinkedMap Backend BackendState), (∀ e ∈ m.entries, e.2 = states e.1) →
      (e ∈ (backends.foldl (collectStep cfg healthy states now) m).entries ↔
        e ∈ m.entries ∨ (e.1 ∈ backends ∧ Collected cfg healthy states now e)) by
    rw [collectCandidates, h LinkedMap.empty (by simp [LinkedMap.empty])]
    simp [LinkedMap.empty]
  induction backends with
  | nil => simp
  | cons be rest ih =>
    intro m hm
    have hm' : ∀ e ∈ (collectStep cfg healthy states now m be).entries, e.2 = states e.1 := by
      intro e' he'
      rcases (mem_collectStep hm be e').mp he' with h | ⟨-, hv, -⟩
      · exact hm e' h
      · exact hv
    rw [List.foldl_cons, ih _ hm', mem_collectStep hm, List.mem_cons]
    constructor
    · rintro ((h | ⟨h, hc⟩) | ⟨h, hc⟩)
      · exact .inl h
      · exact .inr ⟨.inl h, hc⟩
      · exact .inr ⟨.inr h, hc⟩
    · rintro (h | ⟨h | h, hc⟩)
      · exact .inl (.inl h)
      · exact .inl (.inr ⟨h, hc⟩)
      · exact .inr ⟨h, hc⟩

/-- The running maximum of the latest blocks from `acc`: at least `acc` and
    every block, and equal to `acc` or to one of them. -/
theorem highest_foldl_spec (cands : List (Backend × BackendState)) (acc : UInt64) :
    let highest := cands.foldl (fun highest e =>
      if e.2.latestBlockNumber > highest then e.2.latestBlockNumber else highest) acc
    acc.toNat ≤ highest.toNat ∧ (∀ e ∈ cands, e.2.latestBlockNumber.toNat ≤ highest.toNat) ∧
      (highest = acc ∨ ∃ e ∈ cands, highest = e.2.latestBlockNumber) := by
  induction cands generalizing acc with
  | nil => simp
  | cons e cands ih =>
    intro highest
    obtain ⟨hacc, hle, heq⟩ := ih (if e.2.latestBlockNumber > acc then e.2.latestBlockNumber else acc)
    have hstep : acc.toNat ≤ (if e.2.latestBlockNumber > acc then e.2.latestBlockNumber else acc).toNat ∧
        e.2.latestBlockNumber.toNat ≤
          (if e.2.latestBlockNumber > acc then e.2.latestBlockNumber else acc).toNat := by
      split
      · next h =>
        have := UInt64.lt_iff_toNat_lt.mp h
        omega
      · next h =>
        have := UInt64.lt_iff_toNat_lt.not.mp h
        omega
    refine ⟨Nat.le_trans hstep.1 hacc, ?_, ?_⟩
    · intro e' he'
      rcases List.mem_cons.mp he' with rfl | he'
      · exact Nat.le_trans hstep.2 hacc
      · exact hle e' he'
    · rcases heq with heq | ⟨e', he', heq⟩
      · change highest = _ at heq
        rw [heq]
        split
        · exact .inr ⟨e, List.mem_cons_self, rfl⟩
        · exact .inl rfl
      · exact .inr ⟨e', List.mem_cons_of_mem _ he', heq⟩

/-- Every candidate `FilterCandidates` returns is a backend of the list,
    with its state, that passes the checks: the lag check only removes. -/
theorem collected_of_mem_filterCandidates {backends : List Backend} {e : Backend × BackendState}
    (he : e ∈ (filterCandidates cfg healthy states now backends).entries) :
    e.1 ∈ backends ∧ Collected cfg healthy states now e := by
  rw [filterCandidates, LinkedMap.mem_entries_foldl_remove] at he
  exact (mem_collectCandidates backends e).mp he.1

/-- Within `maxBlockLag` of the highest block: no candidate is more than
    `maxBlockLag` blocks ahead. -/
theorem not_lagging_iff {cands : List (Backend × BackendState)} {e : Backend × BackendState}
    (he : e ∈ cands) (maxBlockLag : UInt64) :
    ¬ (highestLatestBlock cands - e.2.latestBlockNumber > maxBlockLag) ↔
      ∀ e' ∈ cands, e'.2.latestBlockNumber.toNat ≤ e.2.latestBlockNumber.toNat + maxBlockLag.toNat := by
  obtain ⟨hle, heq⟩ : (∀ e ∈ cands, e.2.latestBlockNumber.toNat ≤ (highestLatestBlock cands).toNat) ∧
      (highestLatestBlock cands = 0 ∨ ∃ e ∈ cands, highestLatestBlock cands = e.2.latestBlockNumber) :=
    (highest_foldl_spec cands 0).2
  have hsub : (highestLatestBlock cands - e.2.latestBlockNumber).toNat =
      (highestLatestBlock cands).toNat - e.2.latestBlockNumber.toNat :=
    UInt64.toNat_sub_of_le _ _ (UInt64.le_iff_toNat_le.mpr (hle e he))
  rw [gt_iff_lt, UInt64.lt_iff_toNat_lt, hsub, not_lt]
  constructor
  · intro h e' he'
    have := hle e' he'
    omega
  · intro h
    rcases heq with heq | ⟨e', he', heq⟩
    · rw [heq, UInt64.toNat_zero]
      omega
    · have := h e' he'
      rw [heq]
      omega

/-- The candidates `FilterCandidates` returns: the backends of the list
    that pass the checks, each with its state, and that no other backend
    passing them is more than `maxBlockLag` blocks ahead of.  A forced
    candidate skips the checks but not the lag. -/
theorem mem_filterCandidates_iff (backends : List Backend) (be : Backend) (bs : BackendState) :
    (be, bs) ∈ (filterCandidates cfg healthy states now backends).entries ↔
      be ∈ backends ∧ bs = states be ∧ passesChecks cfg (healthy be) now be bs = true ∧
        ∀ be' ∈ backends, passesChecks cfg (healthy be') now be' (states be') = true →
          (states be').latestBlockNumber.toNat ≤ bs.latestBlockNumber.toNat + cfg.maxBlockLag.toNat := by
  set C := collectCandidates cfg healthy states now backends
  have hC := @mem_collectCandidates cfg healthy states now backends
  rw [filterCandidates, LinkedMap.mem_entries_foldl_remove, hC]
  -- a collected backend is lagging exactly when its own entry is
  have hlag : ∀ e ∈ C.entries, (e.1 ∈ laggingBackends cfg (highestLatestBlock C.entries) C.entries ↔
      highestLatestBlock C.entries - e.2.latestBlockNumber > cfg.maxBlockLag) := by
    intro e he
    simp only [laggingBackends, List.mem_map, List.mem_filter, decide_eq_true_eq]
    constructor
    · rintro ⟨e', ⟨he', hl⟩, hk⟩
      rwa [← LinkedMap.eq_of_mem_entries he' he hk]
    · exact fun hl => ⟨e, ⟨he, hl⟩, rfl⟩
  constructor
  · rintro ⟨⟨hmem, hv, hp⟩, hnl⟩
    have he : (be, bs) ∈ C.entries := (hC _).mpr ⟨hmem, hv, hp⟩
    refine ⟨hmem, hv, hp, fun be' hbe' hp' => ?_⟩
    have he' : (be', states be') ∈ C.entries := (hC _).mpr ⟨hbe', rfl, hp'⟩
    exact (not_lagging_iff he cfg.maxBlockLag).mp (fun h => hnl ((hlag _ he).mpr h)) _ he'
  · rintro ⟨hmem, hv, hp, hlead⟩
    have he : (be, bs) ∈ C.entries := (hC _).mpr ⟨hmem, hv, hp⟩
    refine ⟨⟨hmem, hv, hp⟩, fun hl => (not_lagging_iff he cfg.maxBlockLag).mpr ?_ ((hlag _ he).mp hl)⟩
    intro e' he'
    obtain ⟨hbe', hv', hp'⟩ := (hC e').mp he'
    rw [hv']
    exact hlead e'.1 hbe' (hv' ▸ hp')

/-- A candidate that is not forced passed every check of the filter. -/
theorem passesChecks_of_not_forced {healthy' : Bool} {be : Backend} {bs : BackendState}
    (hf : be.forcedCandidate = false) (h : passesChecks cfg healthy' now be bs = true) :
    now ≥ bs.bannedUntil ∧ healthy' = true ∧ (be.skipPeerCountCheck = false → cfg.minPeerCount ≤ bs.peerCount) ∧
      bs.inSync = true ∧ now ≤ bs.lastUpdate + cfg.maxUpdateThreshold := by
  simp only [passesChecks, hf, BackendState.isBanned, Bool.false_or, Bool.and_eq_true,
    Bool.not_eq_true', decide_eq_false_iff_not, Bool.or_eq_true, not_lt] at h
  obtain ⟨⟨⟨⟨hb, hh⟩, hpeer⟩, hs⟩, hu⟩ := h
  refine ⟨hb, hh, fun hskip => ?_, hs, hu⟩
  simpa [hskip, UInt64.le_iff_toNat_le, UInt64.lt_iff_toNat_lt] using hpeer

/-- The consensus candidates are the primaries' when there are any, and the
    fallbacks' only when no primary is a candidate. -/
theorem mem_getConsensusCandidates (bg : BackendGroup) (e : Backend × BackendState) :
    e ∈ (getConsensusCandidates cfg bg healthy states now).entries ↔
      e ∈ (filterCandidates cfg healthy states now bg.primaries).entries ∨
        ((filterCandidates cfg healthy states now bg.primaries).entries = [] ∧
          e ∈ (filterCandidates cfg healthy states now bg.fallbacks).entries) := by
  unfold getConsensusCandidates LinkedMap.size
  dsimp only
  split
  · next hpos =>
    have hne : (filterCandidates cfg healthy states now bg.primaries).entries ≠ [] :=
      List.ne_nil_of_length_pos hpos
    simp [hne]
  · next hpos =>
    have hnil : (filterCandidates cfg healthy states now bg.primaries).entries = [] :=
      List.eq_nil_of_length_eq_zero (Nat.eq_zero_of_not_pos hpos)
    simp [hnil]

end Filter

end Proxyd.Consensus
