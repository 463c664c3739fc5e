import Mathlib.Data.List.Perm.Basic
import Proxyd.Lib.ZeroMin

/-
  Proxyd.Consensus.Poller

  The consensus poller of `consensus_poller.go`: the recorded per-backend
  state, the candidate map, and `UpdateBackendGroupConsensus` — the lowest
  latest/safe/finalized loop with its `0`-as-unset sentinel, the descending
  block walk that re-checks the proposed block hash on every candidate, and
  the tracker and consensus-group update.

  Go-level choices of the embedding:
  * `hexutil.Uint64` is `UInt64`, so `proposedBlock -= 1` wraps at `0`;
  * a `map[*Backend]*backendState` is a `CandidateMap`, listed in the order of
    the first `range` over it; every later `range` may visit the keys in
    another order, given by a `RangeOrder`;
  * `fetchBlock` is the backend's answer, a parameter indexed by the walk
    round, the backend and the requested block number;
  * the walk `for !hasConsensus` is run with fuel, one unit per round.
-/

namespace Proxyd.Consensus

open Proxyd.Lib

/-- The fields of `backendState` that the poller reads (the mutex apart);
    times are nanosecond counts. -/
structure BackendState where
  latestBlockNumber : UInt64
  latestBlockHash : String
  safeBlockNumber : UInt64
  finalizedBlockNumber : UInt64
  peerCount : UInt64
  inSync : Bool
  lastUpdate : Nat
  bannedUntil : Nat
  deriving DecidableEq, Repr

/-- `ConsensusTrackerState`: what `UpdateBackendGroupConsensus` publishes. -/
structure ConsensusTrackerState where
  latest : UInt64
  safe : UInt64
  finalized : UInt64
  deriving DecidableEq, Repr

variable {B : Type}

/-- A Go `map[*Backend]*backendState`, listed in the order of one `range`
    over it; map keys are distinct. -/
structure CandidateMap (B : Type) where
  entries : List (B × BackendState)
  nodup : (entries.map Prod.fst).Nodup

/-- The keys of a candidate map. -/
def CandidateMap.keys (m : CandidateMap B) : List B := m.entries.map Prod.fst

theorem CandidateMap.mem_keys {m : CandidateMap B} {b : B} :
    b ∈ m.keys ↔ ∃ bs, (b, bs) ∈ m.entries := by
  simp [CandidateMap.keys]

/-- The orders in which successive walk rounds `range` over the candidate
    map: every round visits each key once, in an order of the runtime's
    choosing. -/
structure RangeOrder (keys : List B) where
  round : Nat → List B
  perm : ∀ r, (round r).Perm keys

/-- `fetchBlock` answers: for a walk round, a backend and a requested block
    number, the `(blockNumber, blockHash)` the backend returned or an error. -/
abbrev FetchBlock (B : Type) := Nat → B → UInt64 → Except String (UInt64 × String)

/-! ## The lowest latest / safe / finalized loop -/

/-- The accumulators of the first `range` over the candidates. -/
structure Lowest where
  latestBlock : UInt64
  latestBlockHash : String
  finalizedBlock : UInt64
  safeBlock : UInt64
  deriving DecidableEq, Repr

/-- One iteration of the lowest loop: each accumulator is replaced when it is
    still `0` or the candidate's value is smaller. -/
def lowestStep (acc : Lowest) (bs : BackendState) : Lowest where
  latestBlock :=
    if acc.latestBlock = 0 ∨ bs.latestBlockNumber < acc.latestBlock then bs.latestBlockNumber
    else acc.latestBlock
  latestBlockHash :=
    if acc.latestBlock = 0 ∨ bs.latestBlockNumber < acc.latestBlock then bs.latestBlockHash
    else acc.latestBlockHash
  finalizedBlock :=
    if acc.finalizedBlock = 0 ∨ bs.finalizedBlockNumber < acc.finalizedBlock then
      bs.finalizedBlockNumber
    else acc.finalizedBlock
  safeBlock :=
    if acc.safeBlock = 0 ∨ bs.safeBlockNumber < acc.safeBlock then bs.safeBlockNumber
    else acc.safeBlock

/-- The lowest loop over the candidates, from Go's zero values. -/
def lowest (cands : List (B × BackendState)) : Lowest :=
  cands.foldl (fun acc p => lowestStep acc p.2) ⟨0, "", 0, 0⟩

theorem uint64_eq_zero_iff (a : UInt64) : a = 0 ↔ a.toNat = 0 := by
  rw [← UInt64.toNat_inj, UInt64.toNat_zero]

/-- The sentinel test on `UInt64` is the sentinel test on `toNat`. -/
theorem sentinel_iff (acc x : UInt64) :
    (acc = 0 ∨ x < acc) ↔ (acc.toNat = 0 ∨ x.toNat < acc.toNat) := by
  rw [uint64_eq_zero_iff, UInt64.lt_iff_toNat_lt]

/-- The latest block and its hash follow the zero-sentinel minimum of the
    latest block numbers. -/
theorem lowest_latest_eq_zeroMin :
    ∀ (cands : List (B × BackendState)) (acc : Lowest),
      ((cands.foldl (fun acc p => lowestStep acc p.2) acc).latestBlock,
        (cands.foldl (fun acc p => lowestStep acc p.2) acc).latestBlockHash) =
      zeroMin (fun q : UInt64 × String => q.1.toNat) (acc.latestBlock, acc.latestBlockHash)
        (cands.map fun p => (p.2.latestBlockNumber, p.2.latestBlockHash)) := by
  intro cands
  induction cands with
  | nil => intro acc; rfl
  | cons p cands ih =>
    intro acc
    rw [List.foldl_cons, List.map_cons, zeroMin_cons, ih]
    congr 1
    simp only [lowestStep, zeroMinStep, sentinel_iff]
    split <;> rfl

/-- The safe block is the zero-sentinel minimum of the safe block numbers. -/
theorem lowest_safe_eq_zeroMin :
    ∀ (cands : List (B × BackendState)) (acc : Lowest),
      (cands.foldl (fun acc p => lowestStep acc p.2) acc).safeBlock =
      zeroMin UInt64.toNat acc.safeBlock (cands.map fun p => p.2.safeBlockNumber) := by
  intro cands
  induction cands with
  | nil => intro acc; rfl
  | cons p cands ih =>
    intro acc
    rw [List.foldl_cons, List.map_cons, zeroMin_cons, ih]
    congr 1
    simp only [lowestStep, zeroMinStep, sentinel_iff]

/-- The finalized block is the zero-sentinel minimum of the finalized block
    numbers. -/
theorem lowest_finalized_eq_zeroMin :
    ∀ (cands : List (B × BackendState)) (acc : Lowest),
      (cands.foldl (fun acc p => lowestStep acc p.2) acc).finalizedBlock =
      zeroMin UInt64.toNat acc.finalizedBlock (cands.map fun p => p.2.finalizedBlockNumber) := by
  intro cands
  induction cands with
  | nil => intro acc; rfl
  | cons p cands ih =>
    intro acc
    rw [List.foldl_cons, List.map_cons, zeroMin_cons, ih]
    congr 1
    simp only [lowestStep, zeroMinStep, sentinel_iff]

/-- Over candidates with positive heads, the lowest latest block is the head
    of a candidate whose recorded hash it carries, and no head is below it. -/
theorem lowest_latest_spec {cands : List (B × BackendState)} (hne : cands ≠ [])
    (hpos : ∀ p ∈ cands, 0 < p.2.latestBlockNumber.toNat) :
    ∃ p ∈ cands, (lowest cands).latestBlock = p.2.latestBlockNumber ∧
      (lowest cands).latestBlockHash = p.2.latestBlockHash ∧
      ∀ q ∈ cands, (lowest cands).latestBlock.toNat ≤ q.2.latestBlockNumber.toNat := by
  have heq : ((lowest cands).latestBlock, (lowest cands).latestBlockHash) =
      zeroMin (fun q : UInt64 × String => q.1.toNat) ((0 : UInt64), "")
        (cands.map fun p => (p.2.latestBlockNumber, p.2.latestBlockHash)) :=
    lowest_latest_eq_zeroMin cands ⟨0, "", 0, 0⟩
  have hkeys : ∀ x ∈ cands.map (fun p => (p.2.latestBlockNumber, p.2.latestBlockHash)),
      x.1.toNat ≠ 0 := by
    simp only [List.mem_map]
    rintro _ ⟨p, hp, rfl⟩
    exact Nat.pos_iff_ne_zero.mp (hpos p hp)
  obtain ⟨hmem, hle⟩ := zeroMin_isLeast hkeys (by simpa using hne) ((0 : UInt64), "") rfl
  rw [← heq] at hmem hle
  obtain ⟨p, hp, hpeq⟩ := List.mem_map.mp hmem
  simp only [Prod.mk.injEq] at hpeq
  refine ⟨p, hp, hpeq.1.symm, hpeq.2.symm, fun q hq => ?_⟩
  exact hle _ (List.mem_map_of_mem (f := fun p => (p.2.latestBlockNumber, p.2.latestBlockHash)) hq)

/-- Over candidates with positive safe blocks, the lowest safe block is the
    least of them. -/
theorem lowest_safe_isLeast {cands : List (B × BackendState)} (hne : cands ≠ [])
    (hpos : ∀ p ∈ cands, 0 < p.2.safeBlockNumber.toNat) :
    (∃ p ∈ cands, (lowest cands).safeBlock = p.2.safeBlockNumber) ∧
      ∀ q ∈ cands, (lowest cands).safeBlock.toNat ≤ q.2.safeBlockNumber.toNat := by
  have heq : (lowest cands).safeBlock =
      zeroMin UInt64.toNat 0 (cands.map fun p => p.2.safeBlockNumber) :=
    lowest_safe_eq_zeroMin cands ⟨0, "", 0, 0⟩
  have hkeys : ∀ x ∈ cands.map (fun p => p.2.safeBlockNumber), x.toNat ≠ 0 := by
    simp only [List.mem_map]
    rintro _ ⟨p, hp, rfl⟩
    exact Nat.pos_iff_ne_zero.mp (hpos p hp)
  obtain ⟨hmem, hle⟩ := zeroMin_isLeast hkeys (by simpa using hne) (0 : UInt64) rfl
  rw [← heq] at hmem hle
  obtain ⟨p, hp, hpeq⟩ := List.mem_map.mp hmem
  exact ⟨⟨p, hp, hpeq.symm⟩, fun q hq => hle _ (List.mem_map_of_mem hq)⟩

/-- Over candidates with positive finalized blocks, the lowest finalized block
    is the least of them. -/
theorem lowest_finalized_isLeast {cands : List (B × BackendState)} (hne : cands ≠ [])
    (hpos : ∀ p ∈ cands, 0 < p.2.finalizedBlockNumber.toNat) :
    (∃ p ∈ cands, (lowest cands).finalizedBlock = p.2.finalizedBlockNumber) ∧
      ∀ q ∈ cands, (lowest cands).finalizedBlock.toNat ≤ q.2.finalizedBlockNumber.toNat := by
  have heq : (lowest cands).finalizedBlock =
      zeroMin UInt64.toNat 0 (cands.map fun p => p.2.finalizedBlockNumber) :=
    lowest_finalized_eq_zeroMin cands ⟨0, "", 0, 0⟩
  have hkeys : ∀ x ∈ cands.map (fun p => p.2.finalizedBlockNumber), x.toNat ≠ 0 := by
    simp only [List.mem_map]
    rintro _ ⟨p, hp, rfl⟩
    exact Nat.pos_iff_ne_zero.mp (hpos p hp)
  obtain ⟨hmem, hle⟩ := zeroMin_isLeast hkeys (by simpa using hne) (0 : UInt64) rfl
  rw [← heq] at hmem hle
  obtain ⟨p, hp, hpeq⟩ := List.mem_map.mp hmem
  exact ⟨⟨p, hp, hpeq.symm⟩, fun q hq => hle _ (List.mem_map_of_mem hq)⟩

/-! ## One round of the walk -/

/-- What one pass of `for be := range candidates` leaves behind. -/
structure RoundResult where
  allAgreed : Bool
  proposedBlockHash : String
  broken : Bool
  deriving DecidableEq, Repr

/-- The inner loop of a walk round, over the backends in the round's order:
    a failed fetch is skipped (`continue`), an empty reference hash is taken
    from the first answer, and the first answer with another number or hash
    ends the round (`break`), marking consensus broken when the answer is not
    above the current consensus block. -/
def roundScan (fetchR : B → Except String (UInt64 × String)) (current proposed : UInt64) :
    List B → String → Bool → RoundResult
  | [], hash, broken => ⟨true, hash, broken⟩
  | be :: rest, hash, broken =>
    match fetchR be with
    | .error _ => roundScan fetchR current proposed rest hash broken
    | .ok (actualNumber, actualHash) =>
      let hash := if hash = "" then actualHash else hash
      if actualNumber ≠ proposed ∨ actualHash ≠ hash then
        ⟨false, hash, broken || decide (actualNumber ≤ current)⟩
      else roundScan fetchR current proposed rest hash broken

section RoundScan

variable (fetchR : B → Except String (UInt64 × String)) (current proposed : UInt64)

@[simp] theorem roundScan_nil (hash : String) (broken : Bool) :
    roundScan fetchR current proposed [] hash broken = ⟨true, hash, broken⟩ := rfl

theorem roundScan_cons_ok {be : B} {n : UInt64} {h : String} (hf : fetchR be = .ok (n, h))
    (rest : List B) (hash : String) (broken : Bool) :
    roundScan fetchR current proposed (be :: rest) hash broken =
      if n ≠ proposed ∨ h ≠ (if hash = "" then h else hash) then
        ⟨false, if hash = "" then h else hash, broken || decide (n ≤ current)⟩
      else roundScan fetchR current proposed rest (if hash = "" then h else hash) broken := by
  simp only [roundScan, hf]

end RoundScan

/-! ## The walk -/

/-- The variables of the walk loop. -/
structure WalkState where
  proposedBlock : UInt64
  proposedBlockHash : String
  hasConsensus : Bool
  broken : Bool
  deriving DecidableEq, Repr

/-- One round of `for !hasConsensus`: scan the candidates at the proposed
    block; on agreement stop, otherwise walk one block behind with an empty
    reference hash. -/
def walkRound (order : Nat → List B) (fetch : FetchBlock B) (current : UInt64) (r : Nat)
    (st : WalkState) : WalkState :=
  let res := roundScan (fun be => fetch r be st.proposedBlock) current st.proposedBlock
    (order r) st.proposedBlockHash st.broken
  if res.allAgreed then
    { st with proposedBlockHash := res.proposedBlockHash, hasConsensus := true,
              broken := res.broken }
  else
    { proposedBlock := st.proposedBlock - 1, proposedBlockHash := "", hasConsensus := false,
      broken := res.broken }

/-- The walk loop with `fuel` rounds left, the next round being round `r`;
    `none` when the fuel runs out before consensus. -/
def walk (order : Nat → List B) (fetch : FetchBlock B) (current : UInt64) :
    Nat → Nat → WalkState → Option WalkState
  | 0, _, st => if st.hasConsensus then some st else none
  | fuel + 1, r, st =>
    if st.hasConsensus then some st else walk order fetch current fuel (r + 1)
      (walkRound order fetch current r st)

section Walk

variable (order : Nat → List B) (fetch : FetchBlock B) (current : UInt64)

theorem walk_of_hasConsensus {st : WalkState} (h : st.hasConsensus = true) (fuel r : Nat) :
    walk order fetch current fuel r st = some st := by
  cases fuel <;> simp [walk, h]

theorem walk_succ_of_not {st : WalkState} (h : st.hasConsensus = false) (fuel r : Nat) :
    walk order fetch current (fuel + 1) r st =
      walk order fetch current fuel (r + 1) (walkRound order fetch current r st) := by
  simp [walk, h]

theorem walk_zero_of_not {st : WalkState} (h : st.hasConsensus = false) (r : Nat) :
    walk order fetch current 0 r st = none := by
  simp [walk, h]

end Walk

/-! ## The tracker and consensus-group update -/

/-- What one call of `UpdateBackendGroupConsensus` writes: the tracker
    state, the consensus group, and whether the consensus-broken listeners
    were called. -/
structure ConsensusUpdate (B : Type) where
  tracker : ConsensusTrackerState
  consensusGroup : List B
  broken : Bool

/-- `UpdateBackendGroupConsensus` on a candidate map, with `fuel` walk rounds.
    The walk starts from the lowest latest block and its recorded hash and only
    runs when that block is positive; the tracker receives the walk's block and
    the lowest safe and finalized blocks; the group lists, in the order of
    `cp.backendGroup.Backends`, the backends that are candidates. -/
def updateBackendGroupConsensus [DecidableEq B] (backends : List B) (cands : CandidateMap B)
    (ord : RangeOrder cands.keys) (fetch : FetchBlock B) (tracker : ConsensusTrackerState)
    (fuel : Nat) : Option (ConsensusUpdate B) :=
  let low := lowest cands.entries
  let start : WalkState :=
    { proposedBlock := low.latestBlock, proposedBlockHash := low.latestBlockHash,
      hasConsensus := false, broken := false }
  let final := if 0 < low.latestBlock then walk ord.round fetch tracker.latest fuel 0 start
    else some start
  final.map fun st =>
    { tracker := { latest := st.proposedBlock, safe := low.safeBlock,
                   finalized := low.finalizedBlock }
      consensusGroup := backends.filter fun be => be ∈ cands.keys
      broken := st.broken }

/-- The published safe and finalized blocks are the lowest loop's, whatever
    the walk does. -/
theorem updateBackendGroupConsensus_safe_finalized [DecidableEq B] {backends : List B}
    {cands : CandidateMap B} {ord : RangeOrder cands.keys} {fetch : FetchBlock B}
    {tracker : ConsensusTrackerState} {fuel : Nat} {res : ConsensusUpdate B}
    (h : updateBackendGroupConsensus backends cands ord fetch tracker fuel = some res) :
    res.tracker.safe = (lowest cands.entries).safeBlock ∧
      res.tracker.finalized = (lowest cands.entries).finalizedBlock := by
  simp only [updateBackendGroupConsensus, Option.map_eq_some_iff] at h
  obtain ⟨st, -, rfl⟩ := h
  exact ⟨rfl, rfl⟩

end Proxyd.Consensus
