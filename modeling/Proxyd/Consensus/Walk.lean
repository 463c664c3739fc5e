import Proxyd.Consensus.Poller
import Proxyd.Lib.Descend

/-
  Proxyd.Consensus.Walk

  The block walk of `UpdateBackendGroupConsensus` against an honest set of
  candidates: each candidate's node serves one chain, reports its recorded
  head, and all chains share the genesis block.  A round at height `n`
  agrees exactly when every chain has the same hash at `n`, whichever
  reference hash the round starts from (the recorded one in the first round,
  the first answer in later rounds) and in whatever order it visits the
  candidates.  The walk therefore refines the abstract descending search of
  `Proxyd.Lib.Descend` over the agreement predicate, and publishes the
  highest common ancestor below the lowest head.

  Outside the honest case the walk goes wrong in two ways.  A failed fetch
  is skipped and the round still counts as agreed, so a candidate can
  enter the consensus group without having confirmed the published block;
  and the walk has no lower bound, so candidates that disagree down to
  block `0` drive `proposedBlock -= 1` through the `uint64` wrap-around.
-/

namespace Proxyd.Consensus

open Proxyd.Lib

variable {B : Type}

/-- The candidates' chains: the hash each candidate's node holds at each
    height.  The node reports its recorded head, all chains share block `0`,
    and a block hash (a 32-byte hex string) is never empty. -/
structure ChainView (cands : CandidateMap B) where
  hash : B → Nat → String
  head : ∀ p ∈ cands.entries, hash p.1 p.2.latestBlockNumber.toNat = p.2.latestBlockHash
  genesis : ∀ b ∈ cands.keys, ∀ b' ∈ cands.keys, hash b 0 = hash b' 0
  hash_ne : ∀ b n, hash b n ≠ ""

/-- Every candidate's chain has the same hash at height `n`. -/
def AgreeAt (cands : CandidateMap B) (hash : B → Nat → String) (n : Nat) : Prop :=
  ∀ b ∈ cands.keys, ∀ b' ∈ cands.keys, hash b n = hash b' n

instance (cands : CandidateMap B) (hash : B → Nat → String) :
    DecidablePred (AgreeAt cands hash) := fun n =>
  inferInstanceAs (Decidable (∀ b ∈ cands.keys, ∀ b' ∈ cands.keys, hash b n = hash b' n))

/-- Agreement is agreement with any one candidate. -/
theorem agreeAt_iff_eq {cands : CandidateMap B} {hash : B → Nat → String} {n : Nat} {b₀ : B}
    (h₀ : b₀ ∈ cands.keys) :
    AgreeAt cands hash n ↔ ∀ b ∈ cands.keys, hash b n = hash b₀ n := by
  constructor
  · intro h b hb
    exact h b hb b₀ h₀
  · intro h b hb b' hb'
    rw [h b hb, h b' hb']

/-! ## A round over honest answers -/

section Round

variable (fetchR : B → Except String (UInt64 × String)) (current proposed : UInt64)

/-- With a set reference hash, a round over answering backends agrees iff
    every answer carries that hash. -/
theorem roundScan_allAgreed_iff (ans : B → String) :
    ∀ (l : List B), (∀ be ∈ l, fetchR be = .ok (proposed, ans be)) →
    ∀ (ref : String) (broken : Bool), ref ≠ "" →
      ((roundScan fetchR current proposed l ref broken).allAgreed = true ↔
        ∀ be ∈ l, ans be = ref) := by
  intro l
  induction l with
  | nil => intro _ ref broken _; simp
  | cons be rest ih =>
    intro hl ref broken href
    rw [roundScan_cons_ok fetchR current proposed (hl be (List.mem_cons_self ..))]
    have hrest : ∀ x ∈ rest, fetchR x = .ok (proposed, ans x) :=
      fun x hx => hl x (List.mem_cons_of_mem _ hx)
    by_cases hbe : ans be = ref
    · simp only [href, if_false, ne_eq, not_true_eq_false, hbe, not_true_eq_false, or_self]
      rw [ih hrest ref broken href]
      simp [hbe]
    · simp [href, hbe]

/-- With an empty reference hash, the first answer becomes the reference. -/
theorem roundScan_empty_ref (ans : B → String) {be : B}
    (hbe : fetchR be = .ok (proposed, ans be)) (rest : List B) (broken : Bool) :
    roundScan fetchR current proposed (be :: rest) "" broken =
      roundScan fetchR current proposed rest (ans be) broken := by
  rw [roundScan_cons_ok fetchR current proposed hbe]
  simp

end Round

/-! ## The walk refines the descending search -/

section Honest

variable {cands : CandidateMap B} (ord : RangeOrder cands.keys) (fetch : FetchBlock B)
  (chain : ChainView cands) (current : UInt64)

/-- The walk is at height `n` and still searching, with a reference hash that
    is empty or some candidate's hash at `n`. -/
def WalkAt (n : Nat) (st : WalkState) : Prop :=
  st.proposedBlock.toNat = n ∧ st.hasConsensus = false ∧
    (st.proposedBlockHash = "" ∨ ∃ b ∈ cands.keys, st.proposedBlockHash = chain.hash b n)

/-- Every candidate answers every height up to its recorded head from its
    chain, in every round. -/
def HonestFetch : Prop :=
  ∀ r, ∀ p ∈ cands.entries, ∀ n : UInt64, n ≤ p.2.latestBlockNumber →
    fetch r p.1 n = .ok (n, chain.hash p.1 n.toNat)

variable {fetch chain}

/-- At a height no candidate's head is below, every candidate of a round
    answers from its chain. -/
theorem fetch_of_le (hf : HonestFetch fetch chain) {r : Nat} {n : UInt64}
    (hn : ∀ p ∈ cands.entries, n.toNat ≤ p.2.latestBlockNumber.toNat) :
    ∀ be ∈ ord.round r, fetch r be n = .ok (n, chain.hash be n.toNat) := by
  intro be hbe
  obtain ⟨bs, hmem⟩ := CandidateMap.mem_keys.mp ((ord.perm r).subset hbe)
  exact hf r (be, bs) hmem n ((UInt64.le_iff_toNat_le).mpr (hn _ hmem))

/-- A round at a height below every head agrees iff the chains agree there. -/
theorem walkRound_allAgreed_iff (hf : HonestFetch fetch chain) (hne : cands.keys ≠ [])
    {n : Nat} {st : WalkState} (hst : WalkAt chain n st)
    (hn : ∀ p ∈ cands.entries, n ≤ p.2.latestBlockNumber.toNat) (r : Nat) :
    (roundScan (fun be => fetch r be st.proposedBlock) current st.proposedBlock (ord.round r)
        st.proposedBlockHash st.broken).allAgreed = true ↔ AgreeAt cands chain.hash n := by
  obtain ⟨hblock, -, href⟩ := hst
  have hans := fetch_of_le ord hf (r := r) (n := st.proposedBlock) (by rwa [hblock])
  rw [hblock] at hans
  have hperm := ord.perm r
  rcases href with href | ⟨b₀, hb₀, href⟩
  · -- an empty reference: the first backend of the round sets it
    obtain ⟨be, rest, hround⟩ := List.exists_cons_of_ne_nil
      (fun h => hne (List.Perm.nil_eq (h ▸ hperm)).symm)
    have hbe : be ∈ cands.keys := hperm.subset (hround ▸ List.mem_cons_self ..)
    rw [href, hround, roundScan_empty_ref _ _ _ (fun b => chain.hash b n)
        (hans be (hround ▸ List.mem_cons_self ..)),
      roundScan_allAgreed_iff _ _ _ (fun b => chain.hash b n) rest
        (fun x hx => hans x (hround ▸ List.mem_cons_of_mem _ hx)) _ _ (chain.hash_ne be n),
      agreeAt_iff_eq hbe]
    rw [hround] at hperm
    constructor
    · intro h b hb
      rcases List.mem_cons.mp (hperm.symm.subset hb) with rfl | hb'
      · rfl
      · exact h b hb'
    · intro h b hb
      exact h b (hperm.subset (List.mem_cons_of_mem _ hb))
  · -- the recorded reference: some candidate's hash at `n`
    rw [roundScan_allAgreed_iff _ _ _ (fun b => chain.hash b n) _ hans _ _
        (href ▸ chain.hash_ne b₀ n), href,
      agreeAt_iff_eq hb₀]
    exact ⟨fun h b hb => h b (hperm.symm.subset hb), fun h b hb => h b (hperm.subset hb)⟩

/-- One round of the walk: on agreement it stops at the same block, otherwise
    it moves to the next height down, still searching. -/
theorem walkRound_step (hf : HonestFetch fetch chain) (hne : cands.keys ≠ [])
    {n : Nat} {st : WalkState} (hst : WalkAt chain n st)
    (hn : ∀ p ∈ cands.entries, n ≤ p.2.latestBlockNumber.toNat) (r : Nat) :
    (AgreeAt cands chain.hash n →
      (walkRound ord.round fetch current r st).hasConsensus = true ∧
      (walkRound ord.round fetch current r st).proposedBlock = st.proposedBlock) ∧
    (¬ AgreeAt cands chain.hash n → 0 < n →
      WalkAt chain (n - 1) (walkRound ord.round fetch current r st)) := by
  have hiff := walkRound_allAgreed_iff ord current hf hne hst hn r
  refine ⟨fun hagree => ?_, fun hagree hpos => ?_⟩
  · have hall := hiff.mpr hagree
    simp [walkRound, hall]
  · have hall := mt hiff.mp hagree
    have hle : (1 : UInt64) ≤ st.proposedBlock := by
      rw [UInt64.le_iff_toNat_le, hst.1]
      exact hpos
    refine ⟨?_, ?_, Or.inl ?_⟩ <;> simp only [walkRound, hall, Bool.false_eq_true, ↓reduceIte]
    rw [UInt64.toNat_sub_of_le _ _ hle, hst.1]
    rfl

/-- **The walk refines the descending search.**  From any state at height `n`
    below every head, the walk with `fuel` rounds ends at the block the
    abstract search over the agreement predicate returns with the same fuel. -/
theorem walk_refines_descend (hf : HonestFetch fetch chain) (hne : cands.keys ≠ []) :
    ∀ (fuel r n : Nat) (st : WalkState), WalkAt chain n st →
      (∀ p ∈ cands.entries, n ≤ p.2.latestBlockNumber.toNat) →
      (walk ord.round fetch current fuel r st).map (fun st => st.proposedBlock.toNat) =
        descend (AgreeAt cands chain.hash) fuel n := by
  intro fuel
  induction fuel with
  | zero =>
    intro r n st hst _
    rw [walk_zero_of_not _ _ _ hst.2.1, descend_zero]
    rfl
  | succ fuel ih =>
    intro r n st hst hn
    rw [walk_succ_of_not _ _ _ hst.2.1, descend_succ]
    have hstep := walkRound_step ord current hf hne hst hn r
    by_cases hagree : AgreeAt cands chain.hash n
    · -- the round agrees: the walk stops at `n`
      obtain ⟨hcons, hblock⟩ := hstep.1 hagree
      rw [walk_of_hasConsensus _ _ _ hcons, if_pos hagree, Option.map_some, hblock, hst.1]
    · -- the chains differ at `n`, so `n` is above the shared genesis
      have hpos : 0 < n := by
        rcases Nat.eq_zero_or_pos n with rfl | h
        · exact absurd (fun b hb b' hb' => chain.genesis b hb b' hb') hagree
        · exact h
      rw [if_neg hagree]
      exact ih (r + 1) (n - 1) _ (hstep.2 hagree hpos)
        (fun p hp => Nat.le_trans (Nat.sub_le n 1) (hn p hp))

end Honest

/-! ## The published head -/

/-- The heights below every head at which all chains agree; the highest
    common ancestor of the candidates is the greatest of them. -/
def CommonHeights (cands : CandidateMap B) (hash : B → Nat → String) : Set Nat :=
  {n | (∀ p ∈ cands.entries, n ≤ p.2.latestBlockNumber.toNat) ∧ AgreeAt cands hash n}

/-- Below the lowest head `m`, being under every head is being under `m`. -/
theorem commonHeights_eq {cands : CandidateMap B} {hash : B → Nat → String} {m : Nat}
    {p₀ : B × BackendState} (hp₀ : p₀ ∈ cands.entries) (hm : p₀.2.latestBlockNumber.toNat = m)
    (hmin : ∀ q ∈ cands.entries, m ≤ q.2.latestBlockNumber.toNat) :
    CommonHeights cands hash = {k | k ≤ m ∧ AgreeAt cands hash k} := by
  ext k
  constructor
  · rintro ⟨hk, hagree⟩
    exact ⟨hm ▸ hk p₀ hp₀, hagree⟩
  · rintro ⟨hk, hagree⟩
    exact ⟨fun q hq => Nat.le_trans hk (hmin q hq), hagree⟩

/-- **Highest common ancestor.**  For candidates with positive heads whose
    nodes answer from chains through their recorded heads and share genesis,
    `UpdateBackendGroupConsensus` ends within (lowest head + 1) rounds,
    whatever order each round visits the candidates in; it publishes as latest
    the greatest height below every head at which all chains agree, and the
    candidates as the consensus group. -/
theorem updateBackendGroupConsensus_highestCommonAncestor [DecidableEq B]
    (backends : List B) (cands : CandidateMap B) (ord : RangeOrder cands.keys)
    (fetch : FetchBlock B) (tracker : ConsensusTrackerState) (chain : ChainView cands)
    (hne : cands.entries ≠ []) (hsub : ∀ b ∈ cands.keys, b ∈ backends)
    (hpos : ∀ p ∈ cands.entries, 0 < p.2.latestBlockNumber.toNat)
    (hf : HonestFetch fetch chain)
    (fuel : Nat) (hfuel : ∃ p ∈ cands.entries, p.2.latestBlockNumber.toNat < fuel) :
    ∃ res, updateBackendGroupConsensus backends cands ord fetch tracker fuel = some res ∧
      IsGreatest (CommonHeights cands chain.hash) res.tracker.latest.toNat ∧
      ∀ b, b ∈ res.consensusGroup ↔ b ∈ cands.keys := by
  obtain ⟨p₀, hp₀, hlat, hhash, hmin⟩ := lowest_latest_spec hne hpos
  set low := lowest cands.entries with hlow
  set m := low.latestBlock.toNat with hm
  have hkeys : cands.keys ≠ [] := by simpa [CandidateMap.keys] using hne
  have hgen : AgreeAt cands chain.hash 0 := chain.genesis
  -- the first round starts at the lowest head, with that candidate's hash
  have hstart : WalkAt chain m
      ⟨low.latestBlock, low.latestBlockHash, false, false⟩ := by
    refine ⟨rfl, rfl, Or.inr ⟨p₀.1, List.mem_map_of_mem hp₀, ?_⟩⟩
    simp only [hhash, hm, hlat, chain.head p₀ hp₀]
  have hwalk := walk_refines_descend ord tracker.latest hf hkeys fuel 0 m _ hstart hmin
  obtain ⟨p₁, hp₁, hfuel⟩ := hfuel
  rw [descend_eq_findGreatest _ hgen m fuel (Nat.lt_of_le_of_lt (hmin p₁ hp₁) hfuel)] at hwalk
  obtain ⟨st, hst, hblock⟩ := Option.map_eq_some_iff.mp hwalk
  have hlowpos : 0 < low.latestBlock := by
    rw [UInt64.lt_iff_toNat_lt, hlat]
    exact hpos p₀ hp₀
  have hres : updateBackendGroupConsensus backends cands ord fetch tracker fuel =
      some ⟨⟨st.proposedBlock, low.safeBlock, low.finalizedBlock⟩,
        backends.filter (fun be => be ∈ cands.keys), st.broken⟩ := by
    simp only [updateBackendGroupConsensus, ← hlow, if_pos hlowpos, hst]
    rfl
  refine ⟨_, hres, ?_, ?_⟩
  · rw [commonHeights_eq hp₀ (by rw [hm, hlat]) hmin]
    simpa [hblock] using isGreatest_findGreatest _ hgen m
  · intro b
    simp only [List.mem_filter, decide_eq_true_eq]
    exact ⟨fun h => h.2, fun h => ⟨hsub b h, h⟩⟩

/-! ## A fork at height 2 -/

/-- Visit the keys in the same order in every round. -/
def inOrder (keys : List B) : RangeOrder keys := ⟨fun _ => keys, fun _ => List.Perm.refl _⟩

/-- A recorded state with head, safe and finalized blocks `2`, `2`, `1`. -/
def forkState (hash : String) : BackendState := ⟨2, hash, 2, 1, 5, true, 0, 0⟩

/-- Two candidates whose chains share blocks `0` and `1` and fork at `2`. -/
def forkCands : CandidateMap Nat := ⟨[(0, forkState "0xa2"), (1, forkState "0xb2")], by decide⟩

/-- The two forked chains. -/
def forkHash (b n : Nat) : String :=
  if n = 0 then "0x00" else if n = 1 then "0x01" else if b = 0 then "0xa2" else "0xb2"

def forkChain : ChainView forkCands where
  hash := forkHash
  head := by decide
  genesis := by decide
  hash_ne := by
    intro b n
    unfold forkHash
    split_ifs <;> decide

/-- Both nodes answer from their chains. -/
def forkFetch : FetchBlock Nat := fun _ b n => .ok (n, forkHash b n.toNat)

theorem updateBackendGroupConsensus_highestCommonAncestor_fork :
    ∃ res, updateBackendGroupConsensus [0, 1] forkCands (inOrder forkCands.keys) forkFetch
        ⟨0, 0, 0⟩ 3 = some res ∧
      IsGreatest (CommonHeights forkCands forkChain.hash) res.tracker.latest.toNat ∧
      ∀ b, b ∈ res.consensusGroup ↔ b ∈ forkCands.keys :=
  updateBackendGroupConsensus_highestCommonAncestor [0, 1] forkCands (inOrder forkCands.keys)
    forkFetch ⟨0, 0, 0⟩ forkChain (by decide) (by decide) (by decide) (fun _ _ _ _ _ => rfl) 3
    ⟨(0, forkState "0xa2"), List.mem_cons_self .., by decide⟩

/-! ## Outside the honest case: a walk through genesis -/

/-- A recorded state with head, safe and finalized blocks `1`. -/
def splitState (hash : String) : BackendState := ⟨1, hash, 1, 1, 5, true, 0, 0⟩

/-- Two candidates on chains with different genesis blocks. -/
def splitCands : CandidateMap Nat := ⟨[(0, splitState "0xa"), (1, splitState "0xb")], by decide⟩

/-- Each node answers blocks `0` and `1` from its own chain and has no higher
    block. -/
def splitFetch : FetchBlock Nat := fun _ b n =>
  if n ≤ 1 then .ok (n, if b = 0 then "0xa" else "0xb") else .error "not found"

/-- The walk disagrees at `1` and at `0`, decrements `proposedBlock` from `0`
    to `2^64 - 1`, finds no answer there and calls it consensus: it needs a
    third round where `lowestLatestBlock + 1 = 2` were promised, and publishes
    a latest block above every candidate's head. -/
theorem updateBackendGroupConsensus_wraps_below_genesis :
    updateBackendGroupConsensus [0, 1] splitCands (inOrder splitCands.keys) splitFetch
        ⟨0, 0, 0⟩ 2 = none ∧
    (updateBackendGroupConsensus [0, 1] splitCands (inOrder splitCands.keys) splitFetch
        ⟨0, 0, 0⟩ 3).map (fun res => res.tracker.latest) = some 18446744073709551615 := by
  decide

/-! ## Outside the honest case: a silent group member -/

/-- Two candidates that recorded the same head `5`. -/
def silentCands : CandidateMap Nat :=
  ⟨[(0, ⟨5, "0xa5", 5, 5, 5, true, 0, 0⟩), (1, ⟨5, "0xa5", 5, 5, 5, true, 0, 0⟩)], by decide⟩

/-- Backend `0` times out; backend `1` confirms block `5`. -/
def silentFetch : FetchBlock Nat := fun _ b n =>
  if b = 0 then .error "timeout" else .ok (n, "0xa5")

/-- The only round skips backend `0`, whose fetch fails, and agrees on block
    `5`; backend `0` is nonetheless published in the consensus group. -/
theorem updateBackendGroupConsensus_silent_member :
    silentFetch 0 0 5 = .error "timeout" ∧
    (updateBackendGroupConsensus [0, 1] silentCands (inOrder silentCands.keys) silentFetch
        ⟨0, 0, 0⟩ 1).map (fun res => (res.tracker.latest, res.consensusGroup)) =
      some (5, [0, 1]) := by
  decide

end Proxyd.Consensus
