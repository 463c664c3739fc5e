import Mathlib.Data.Nat.Find
import Mathlib.Order.Bounds.Defs

/-
  Proxyd.Lib.Descend

  Descending search: test `n`, `n - 1`, `n - 2`, … and stop at the first
  height that passes.  With enough fuel and a passing height `0` the search
  returns `Nat.findGreatest`, the greatest passing height at most `n`; this is
  the abstract model that a block-walk refines.
-/

namespace Proxyd.Lib

/-- Descending search with `fuel` tests, starting at `n`. -/
def descend (ok : Nat → Prop) [DecidablePred ok] : Nat → Nat → Option Nat
  | 0, _ => none
  | fuel + 1, n => if ok n then some n else descend ok fuel (n - 1)

section

variable (ok : Nat → Prop) [DecidablePred ok]

@[simp] theorem descend_zero (n : Nat) : descend ok 0 n = none := rfl

theorem descend_succ (fuel n : Nat) :
    descend ok (fuel + 1) n = if ok n then some n else descend ok fuel (n - 1) := rfl

/-- With a passing height `0` and more tests than `n`, the search finds the
    greatest passing height at most `n`. -/
theorem descend_eq_findGreatest (h0 : ok 0) :
    ∀ (n fuel : Nat), n < fuel → descend ok fuel n = some (Nat.findGreatest ok n) := by
  intro n
  induction n with
  | zero =>
    intro fuel hfuel
    obtain ⟨f, rfl⟩ : ∃ f, fuel = f + 1 := ⟨fuel - 1, by omega⟩
    simp [descend_succ, h0]
  | succ n ih =>
    intro fuel hfuel
    obtain ⟨f, rfl⟩ : ∃ f, fuel = f + 1 := ⟨fuel - 1, by omega⟩
    rw [descend_succ, Nat.findGreatest_succ]
    by_cases hn : ok (n + 1)
    · simp [hn]
    · simp only [hn, if_false, Nat.add_sub_cancel]
      exact ih f (by omega)

/-- `Nat.findGreatest` is the greatest passing height at most `n`, once
    height `0` passes. -/
theorem isGreatest_findGreatest (h0 : ok 0) (n : Nat) :
    IsGreatest {k | k ≤ n ∧ ok k} (Nat.findGreatest ok n) := by
  refine ⟨⟨Nat.findGreatest_le n, Nat.findGreatest_spec (Nat.zero_le n) h0⟩, ?_⟩
  rintro k ⟨hk, hok⟩
  exact Nat.le_findGreatest hk hok

end

end Proxyd.Lib
