import Proxyd.Rpc.RewriterSpec

/-
  Proxyd.Rpc.RangeCheck

  The block-range check of `rewriteRange`.  Once both bounds are read back
  as numbers (`blockNumber`: `earliest` is `0`, `pending` is `latest + 1`,
  anything else a hex quantity), the check compares `to - from` with
  `maxBlockRange` in `uint64` arithmetic.  For `from ≤ to` that is the size
  of the range; for `from > to` the subtraction wraps around to a number
  near `2^64`, so a reversed range is refused as too large.  The filter
  `{"fromBlock": "pending"}`, whose `toBlock` defaults to `latest`, is one
  for every consensus view.
-/

namespace Proxyd.Rpc

open Proxyd.Go Proxyd.Eth Proxyd.Lib

/-- The range check refuses exactly the bounds whose `uint64` difference
    exceeds `maxBlockRange`: `to - from` when `from ≤ to`, and
    `2^64 - (from - to)` when the range is reversed. -/
theorem checkRange_eq_error_iff (rctx : RewriteContext) {m : FilterMap} {f t : UInt64}
    (hf : blockNumber m "fromBlock" rctx.latest = .ok f) (ht : blockNumber m "toBlock" rctx.latest = .ok t) :
    checkRange rctx m = .error .rangeTooLarge ↔
      rctx.maxBlockRange.toNat < (2 ^ 64 - f.toNat + t.toNat) % 2 ^ 64 := by
  have hsub : (t - f).toNat = (2 ^ 64 - f.toNat + t.toNat) % 2 ^ 64 := UInt64.toNat_sub t f
  simp only [checkRange, hf, ht, except_ok_bind]
  split
  · rename_i hgt
    simpa [UInt64.lt_iff_toNat_lt, hsub] using hgt
  · rename_i hle
    have hok : (pure () : Except RewriteError Unit) ≠ .error .rangeTooLarge := by
      intro h
      cases h
    simp only [hok, false_iff, not_lt]
    simpa [UInt64.lt_iff_toNat_lt, hsub] using hle

/-- The tag `pending` names no block the rewriter pins. -/
theorem rewriteTag_pending (rctx : RewriteContext) : rewriteTag rctx "pending" = .ok ("pending", false) :=
  rfl

/-- A filter from `pending` up to the default `latest` is a reversed range,
    one block long backwards, and under every consensus view with a range
    limit of `100` it is refused as too large. -/
theorem rewriteRequest_reversed_range_too_large (latest safe finalized : UInt64) (id : Option Json) :
    rewriteRequest ⟨latest, safe, finalized, 100⟩
        ⟨"2.0", "eth_getLogs", some (.arr [.obj [("fromBlock", .str "pending")]]), id⟩ =
      .ok (.error .rangeTooLarge (some (.arr [.obj [("fromBlock", .str "pending")]]))) := by
  set rctx : RewriteContext := ⟨latest, safe, finalized, 100⟩
  -- the filter decodes to one map holding `fromBlock`; `toBlock` defaults to `latest`
  set m : FilterMap := some (toGoMap (goMembers [("fromBlock", .str "pending")]))
  set m₁ := m.assign "toBlock" (.str "latest")
  set m₂ := m₁.assign "toBlock" (.str (encodeUint64 latest))
  have hdec : unmarshalMapSlice (some (.arr [.obj [("fromBlock", .str "pending")]])) = .ok [m] := rfl
  have hhas : FilterMap.has m "fromBlock" = true := rfl
  have hdef : defaultRange m = m₁ := rfl
  -- `pending` is left as it is, `latest` becomes the view's number
  have hfrom : rewriteTagMap rctx m₁ "fromBlock" = .ok (m₁, false) := by
    have hidx : m₁.index "fromBlock" = .str "pending" := rfl
    simp [rewriteTagMap, hidx, rewriteTag_pending]
  have hto : rewriteTagMap rctx m₁ "toBlock" = .ok (m₂, true) := by
    have hidx : m₁.index "toBlock" = .str "latest" := rfl
    simp [rewriteTagMap, hidx, rewriteTag_latest, rctx, m₂]
  -- read back, the bounds are `latest + 1` and `latest`
  have hcheck : checkRange rctx m₂ = .error .rangeTooLarge := by
    have hf : blockNumber m₂ "fromBlock" latest = .ok (latest + 1) := rfl
    have ht : blockNumber m₂ "toBlock" latest = .ok latest := by
      have hidx : m₂.index "toBlock" = .str (encodeUint64 latest) :=
        FilterMap.index_assign_self rfl "toBlock" _
      -- a printed quantity starts with `0`, so it is no tag
      have htag : ∀ s : String, s.toList.head? ≠ some '0' → encodeUint64 latest ≠ s := fun s hs h =>
        hs (h ▸ encodeUint64_head latest)
      simp only [blockNumber, hidx]
      rw [if_neg (htag "earliest" (by decide)), if_neg (htag "pending" (by decide)),
        decodeUint64_encodeUint64]
      rfl
    -- `latest - (latest + 1)` wraps around to `2^64 - 1`
    rw [checkRange_eq_error_iff rctx hf ht]
    have hl := latest.toNat_lt_size
    simp only [rctx, UInt64.toNat_add, UInt64.toNat_ofNat, UInt64.size] at *
    omega
  simp [rewriteRequest, rewriteRange, hdec, sliceIndex, hhas, hdef, rewriteRangeMap, hfrom, hto,
    hcheck, rctx]

end Proxyd.Rpc
