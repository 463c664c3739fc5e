import Mathlib.Order.Bounds.Defs
import Mathlib.Data.List.Basic

/-
  Proxyd.Lib.ZeroMin

  A running minimum that reads the key `0` as "unset": a step keeps the
  accumulator unless its key is `0` or the new element's key is smaller.
  Over elements with non-zero keys and a zero initial key, the fold returns an
  element of the list with the least key; an element with key `0` resets the
  running minimum, which is why callers need the non-zero hypothesis.
-/

namespace Proxyd.Lib

variable {β : Type _} (key : β → Nat)

/-- One step of the zero-sentinel running minimum. -/
def zeroMinStep (acc x : β) : β :=
  if key acc = 0 ∨ key x < key acc then x else acc

/-- The zero-sentinel running minimum of `xs`, starting from `init`. -/
def zeroMin (init : β) (xs : List β) : β :=
  xs.foldl (zeroMinStep key) init

@[simp] theorem zeroMin_nil (init : β) : zeroMin key init [] = init := rfl

@[simp] theorem zeroMin_cons (init x : β) (xs : List β) :
    zeroMin key init (x :: xs) = zeroMin key (zeroMinStep key init x) xs := rfl

theorem zeroMinStep_of_zero {acc : β} (h : key acc = 0) (x : β) :
    zeroMinStep key acc x = x := by
  simp [zeroMinStep, h]

/-- A step from a set accumulator keeps the smaller key. -/
theorem key_zeroMinStep {acc : β} (h : key acc ≠ 0) (x : β) :
    key (zeroMinStep key acc x) = min (key acc) (key x) := by
  unfold zeroMinStep
  by_cases hx : key x < key acc
  · simp [hx]; omega
  · simp [h, hx]; omega

section NonZero

variable {key}

/-- The result is the initial accumulator or one of the elements. -/
theorem zeroMin_eq_or_mem :
    ∀ (init : β) (xs : List β), zeroMin key init xs = init ∨ zeroMin key init xs ∈ xs := by
  intro init xs
  induction xs generalizing init with
  | nil => exact Or.inl rfl
  | cons x xs ih =>
    rw [zeroMin_cons]
    unfold zeroMinStep
    split
    · rcases ih x with h | h
      · exact Or.inr (by rw [h]; exact List.mem_cons_self ..)
      · exact Or.inr (List.mem_cons_of_mem _ h)
    · rcases ih init with h | h
      · exact Or.inl h
      · exact Or.inr (List.mem_cons_of_mem _ h)

/-- Over non-zero keys, a set accumulator only decreases. -/
theorem key_zeroMin_le_init (hxs : ∀ x ∈ xs, key x ≠ 0) :
    ∀ (init : β), key init ≠ 0 → key (zeroMin key init xs) ≤ key init := by
  induction xs with
  | nil => intro init _; exact Nat.le_refl _
  | cons x xs ih =>
    intro init hinit
    have hx : key x ≠ 0 := hxs x (List.mem_cons_self ..)
    have hstep := key_zeroMinStep key hinit x
    have hne : key (zeroMinStep key init x) ≠ 0 := by omega
    have := ih (fun y hy => hxs y (List.mem_cons_of_mem _ hy)) _ hne
    rw [zeroMin_cons]
    omega

/-- Over non-zero keys, the result's key is at most every element's key. -/
theorem key_zeroMin_le (hxs : ∀ x ∈ xs, key x ≠ 0) :
    ∀ (init : β), ∀ y ∈ xs, key (zeroMin key init xs) ≤ key y := by
  induction xs with
  | nil => intro init y hy; simp at hy
  | cons x xs ih =>
    intro init y hy
    have hx : key x ≠ 0 := hxs x (List.mem_cons_self ..)
    have hxs' : ∀ z ∈ xs, key z ≠ 0 := fun z hz => hxs z (List.mem_cons_of_mem _ hz)
    have hset : key (zeroMinStep key init x) ≠ 0 := by
      unfold zeroMinStep; split <;> omega
    have hle_x : key (zeroMinStep key init x) ≤ key x := by
      unfold zeroMinStep; split <;> omega
    rw [zeroMin_cons]
    rcases List.mem_cons.mp hy with rfl | hy
    · exact Nat.le_trans (key_zeroMin_le_init hxs' _ hset) hle_x
    · exact ih hxs' _ y hy

/-- From a zero key over a non-empty list of non-zero keys, the fold returns an
    element with the least key. -/
theorem zeroMin_isLeast (hxs : ∀ x ∈ xs, key x ≠ 0) (hne : xs ≠ [])
    (init : β) (hinit : key init = 0) :
    zeroMin key init xs ∈ xs ∧ ∀ y ∈ xs, key (zeroMin key init xs) ≤ key y := by
  refine ⟨?_, key_zeroMin_le hxs init⟩
  obtain ⟨x, xs', rfl⟩ := List.exists_cons_of_ne_nil hne
  rw [zeroMin_cons, zeroMinStep_of_zero key hinit]
  rcases zeroMin_eq_or_mem x xs' with h | h
  · rw [h]; exact List.mem_cons_self ..
  · exact List.mem_cons_of_mem _ h

end NonZero

end Proxyd.Lib
