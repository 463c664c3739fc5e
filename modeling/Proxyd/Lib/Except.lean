import Mathlib.Logic.Basic
import Mathlib.Data.List.Forall2

/-
  Proxyd.Lib.Except

  Inversion rules for computations in `Except`: a bind, a map or an error
  map that succeeds is taken apart into the successes it is made of.
-/

namespace Proxyd.Lib

variable {ε ε' α β : Type}

@[simp] theorem except_ok_bind (a : α) (f : α → Except ε β) : (Except.ok a >>= f) = f a := rfl

@[simp] theorem except_pure_eq_ok {a b : α} : (pure a : Except ε α) = .ok b ↔ a = b :=
  ⟨Except.ok.inj, congrArg _⟩

@[simp] theorem except_error_bind (e : ε) (f : α → Except ε β) :
    (Except.error e >>= f) = Except.error e := rfl

theorem except_bind_eq_ok {x : Except ε α} {f : α → Except ε β} {b : β} :
    (x >>= f) = .ok b ↔ ∃ a, x = .ok a ∧ f a = .ok b := by
  cases x with
  | error e => simp
  | ok a => simp

theorem except_map_eq_ok {x : Except ε α} {f : α → β} {b : β} :
    x.map f = .ok b ↔ ∃ a, x = .ok a ∧ f a = b := by
  cases x with
  | error e => simp [Except.map]
  | ok a => simp [Except.map]

theorem except_mapError_eq_ok {x : Except ε α} {f : ε → ε'} {a : α} :
    x.mapError f = .ok a ↔ x = .ok a := by
  cases x with
  | error e => simp [Except.mapError]
  | ok a' => simp [Except.mapError]

/-- A `mapM` that succeeds pairs each element with its result. -/
theorem except_mapM_forall₂ {f : α → Except ε β} :
    ∀ {xs : List α} {ys : List β}, xs.mapM f = .ok ys → List.Forall₂ (fun x y => f x = .ok y) xs ys
  | [], ys, h => by
    have : [] = ys := Except.ok.inj h
    rw [← this]
    exact .nil
  | x :: xs, ys, h => by
    rw [List.mapM_cons, except_bind_eq_ok] at h
    obtain ⟨y, hy, h⟩ := h
    rw [except_bind_eq_ok] at h
    obtain ⟨ys', hys', h⟩ := h
    rw [← except_pure_eq_ok.mp h]
    exact .cons hy (except_mapM_forall₂ hys')

/-- Every result of a `mapM` that succeeds is the result of an element. -/
theorem except_mapM_mem {f : α → Except ε β} {xs : List α} {ys : List β} (h : xs.mapM f = .ok ys)
    {y : β} (hy : y ∈ ys) : ∃ x ∈ xs, f x = .ok y := by
  have hf := except_mapM_forall₂ h
  clear h
  induction hf with
  | nil => cases hy
  | cons hxy _ ih =>
    rcases List.mem_cons.mp hy with rfl | hy
    · exact ⟨_, List.mem_cons_self, hxy⟩
    · obtain ⟨x, hx, h⟩ := ih hy
      exact ⟨x, List.mem_cons_of_mem _ hx, h⟩

/-- A `mapM` that succeeds gives one result for each element. -/
theorem except_mapM_length {f : α → Except ε β} {xs : List α} {ys : List β} (h : xs.mapM f = .ok ys) :
    ys.length = xs.length :=
  (except_mapM_forall₂ h).length_eq.symm

/-- The invariant rule of a `foldlM` that succeeds: a property of the
    accumulator and the elements folded so far that every step keeps holds
    of the result and all the elements. -/
theorem except_foldlM_invariant {f : β → α → Except ε β} (P : β → List α → Prop)
    (hstep : ∀ b pre x b', P b pre → f b x = .ok b' → P b' (pre ++ [x])) :
    ∀ {xs : List α} {b r : β} {pre : List α}, P b pre → xs.foldlM f b = .ok r → P r (pre ++ xs)
  | [], b, r, pre, hb, h => by
    have hr : b = r := Except.ok.inj h
    rw [← hr, List.append_nil]
    exact hb
  | x :: xs, b, r, pre, hb, h => by
    rw [List.foldlM_cons, except_bind_eq_ok] at h
    obtain ⟨b', hb', h⟩ := h
    have ih := except_foldlM_invariant P hstep (hstep b pre x b' hb hb') h
    rwa [List.append_assoc, List.singleton_append] at ih

/-- The invariant rule from the start of the fold. -/
theorem except_foldlM_invariant_nil {f : β → α → Except ε β} (P : β → List α → Prop)
    (hstep : ∀ b pre x b', P b pre → f b x = .ok b' → P b' (pre ++ [x]))
    {xs : List α} {b r : β} (hb : P b []) (h : xs.foldlM f b = .ok r) : P r xs :=
  except_foldlM_invariant P hstep hb h

end Proxyd.Lib
