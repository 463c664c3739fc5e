import Proxyd.Consensus.Walk

/-
  Proxyd.Consensus.Tags

  The three numbers `UpdateBackendGroupConsensus` publishes.  The safe and
  finalized blocks are the zero-sentinel minima of the candidates' recorded
  values, computed before and independently of the walk; the latest block is
  the walk's.  With positive recorded values the two minima are the true
  minima in every iteration order (a recorded `0` is read as "no value yet",
  and the order then decides whether it is kept), so the published finalized block is at most
  the published safe block; nothing relates the walk's block to them, and a
  fork below the safe head publishes a latest block under the safe one.
-/

namespace Proxyd.Consensus

variable {B : Type}

/-- **Published safe and finalized blocks.**  For candidates with
    `0 < finalized ≤ safe ≤ latest`, in every iteration order and for every
    `fetchBlock` behaviour, a run of `UpdateBackendGroupConsensus` publishes as
    safe and finalized the least of the candidates' safe and finalized blocks,
    and so finalized ≤ safe. -/
theorem updateBackendGroupConsensus_safe_finalized_minima [DecidableEq B]
    (backends : List B) (cands : CandidateMap B) (ord : RangeOrder cands.keys)
    (fetch : FetchBlock B) (tracker : ConsensusTrackerState) (fuel : Nat)
    (res : ConsensusUpdate B) (hne : cands.entries ≠ [])
    (htags : ∀ p ∈ cands.entries, 0 < p.2.finalizedBlockNumber.toNat ∧
      p.2.finalizedBlockNumber ≤ p.2.safeBlockNumber ∧
      p.2.safeBlockNumber ≤ p.2.latestBlockNumber)
    (h : updateBackendGroupConsensus backends cands ord fetch tracker fuel = some res) :
    IsLeast {x | ∃ p ∈ cands.entries, x = p.2.safeBlockNumber.toNat} res.tracker.safe.toNat ∧
      IsLeast {x | ∃ p ∈ cands.entries, x = p.2.finalizedBlockNumber.toNat}
        res.tracker.finalized.toNat ∧
      res.tracker.finalized ≤ res.tracker.safe := by
  obtain ⟨hsafe, hfin⟩ := updateBackendGroupConsensus_safe_finalized h
  have hfinpos : ∀ p ∈ cands.entries, 0 < p.2.finalizedBlockNumber.toNat :=
    fun p hp => (htags p hp).1
  have hsafepos : ∀ p ∈ cands.entries, 0 < p.2.safeBlockNumber.toNat := by
    intro p hp
    obtain ⟨hpos, hle, -⟩ := htags p hp
    exact Nat.lt_of_lt_of_le hpos (UInt64.le_iff_toNat_le.mp hle)
  obtain ⟨⟨ps, hps, hseq⟩, hsle⟩ := lowest_safe_isLeast hne hsafepos
  obtain ⟨⟨pf, hpf, hfeq⟩, hfle⟩ := lowest_finalized_isLeast hne hfinpos
  refine ⟨⟨⟨ps, hps, by rw [hsafe, hseq]⟩, ?_⟩, ⟨⟨pf, hpf, by rw [hfin, hfeq]⟩, ?_⟩, ?_⟩
  · rintro _ ⟨q, hq, rfl⟩
    exact hsafe ▸ hsle q hq
  · rintro _ ⟨q, hq, rfl⟩
    exact hfin ▸ hfle q hq
  · -- the least finalized block is at most the finalized block of the
    -- candidate holding the least safe block
    rw [UInt64.le_iff_toNat_le, hsafe, hfin, hseq]
    exact Nat.le_trans (hfle ps hps) (UInt64.le_iff_toNat_le.mp (htags ps hps).2.1)

/-- The fork of `Proxyd.Consensus.Walk`: the published safe and finalized
    blocks are `2` and `1`, the least recorded ones. -/
theorem updateBackendGroupConsensus_safe_finalized_minima_fork :
    IsLeast {x | ∃ p ∈ forkCands.entries, x = p.2.safeBlockNumber.toNat} 2 ∧
      IsLeast {x | ∃ p ∈ forkCands.entries, x = p.2.finalizedBlockNumber.toNat} 1 ∧
      (1 : UInt64) ≤ 2 :=
  updateBackendGroupConsensus_safe_finalized_minima [0, 1] forkCands (inOrder forkCands.keys)
    forkFetch ⟨0, 0, 0⟩ 3 ⟨⟨1, 2, 1⟩, [0, 1], false⟩ (by decide) (by decide) (by rfl)

/-- A recorded state at head `1`, whose hash `0x01` both forked chains share,
    with safe and finalized blocks `tag`; `tag = 0` is a node that reports
    neither block yet, which `checkExpectedBlockTags` lets through. -/
def headOneState (tag : UInt64) : BackendState := ⟨1, "0x01", tag, tag, 5, true, 0, 0⟩

/-- One candidate at tag `0` and one at tag `1`, visited in the order `zeroFirst`
    says: the same map in its two iteration orders. -/
def sentinelCands (zeroFirst : Bool) : CandidateMap Nat :=
  if zeroFirst then ⟨[(0, headOneState 0), (1, headOneState 1)], by decide⟩
  else ⟨[(1, headOneState 1), (0, headOneState 0)], by decide⟩

/-- Two ways the published tags leave the recorded order and minima on
    candidates with `finalized ≤ safe ≤ latest`.  A fork below the safe
    head: both candidates record latest `2`, safe `2`, finalized `1`, but
    their chains differ at `2`, so the walk publishes latest `1` under the
    published safe `2`.  And the zero sentinel: with a candidate at `0`,
    visited first its `0` is overwritten by the other's `1`, visited last it
    replaces it, so the published tags depend on the iteration order, and in
    the first order they are not the least recorded ones. -/
theorem updateBackendGroupConsensus_fork_below_safe :
    (∀ p ∈ forkCands.entries, p.2.finalizedBlockNumber ≤ p.2.safeBlockNumber ∧
      p.2.safeBlockNumber ≤ p.2.latestBlockNumber) ∧
    (updateBackendGroupConsensus [0, 1] forkCands (inOrder forkCands.keys) forkFetch
      ⟨0, 0, 0⟩ 3).map (fun res => res.tracker) = some ⟨1, 2, 1⟩ ∧
    (sentinelCands true).entries.Perm (sentinelCands false).entries ∧
    (∀ zeroFirst, ∀ p ∈ (sentinelCands zeroFirst).entries,
      p.2.finalizedBlockNumber ≤ p.2.safeBlockNumber ∧
        p.2.safeBlockNumber ≤ p.2.latestBlockNumber) ∧
    (updateBackendGroupConsensus [0, 1] (sentinelCands true)
      (inOrder (sentinelCands true).keys) forkFetch ⟨0, 0, 0⟩ 3).map
        (fun res => res.tracker) = some ⟨1, 1, 1⟩ ∧
    (updateBackendGroupConsensus [0, 1] (sentinelCands false)
      (inOrder (sentinelCands false).keys) forkFetch ⟨0, 0, 0⟩ 3).map
        (fun res => res.tracker) = some ⟨1, 0, 0⟩ := by
  decide

end Proxyd.Consensus
