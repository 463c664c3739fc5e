import Mathlib.Logic.Basic

/-
  Proxyd.Lib.Reach

  Labelled transition systems: runs, reachable states and inductive
  invariants.  A safety property of a system is proved once as an
  `Invariant` (it holds initially and every step keeps it) and then read at
  every reachable state; a system whose steps are among another's reaches
  only states the other reaches, so invariants of the larger system carry
  over to a restricted one.
-/

namespace Proxyd.Lib

/-- A labelled transition system: its initial states and its steps. -/
structure LTS (S L : Type) where
  init : S → Prop
  step : S → L → S → Prop

namespace LTS

variable {S L : Type} (M : LTS S L)

/-- A run: the labels of the steps taken from one state to another. -/
inductive Run : S → List L → S → Prop
  | nil (s : S) : Run s [] s
  | cons {s s₁ s₂ : S} {l : L} {ls : List L} : M.step s l s₁ → Run s₁ ls s₂ → Run s (l :: ls) s₂

/-- A state that a run from an initial state reaches. -/
def Reachable (s : S) : Prop := ∃ s₀ ls, M.init s₀ ∧ M.Run s₀ ls s

/-- An inductive invariant: true of every initial state and kept by every step. -/
structure Invariant (P : S → Prop) : Prop where
  init : ∀ s, M.init s → P s
  step : ∀ s l s', P s → M.step s l s' → P s'

variable {M}

theorem Run.append {s₁ s₂ s₃ : S} {ls₁ ls₂ : List L} (h₁ : M.Run s₁ ls₁ s₂) (h₂ : M.Run s₂ ls₂ s₃) :
    M.Run s₁ (ls₁ ++ ls₂) s₃ := by
  induction h₁ with
  | nil => exact h₂
  | cons hs _ ih => exact .cons hs (ih h₂)

theorem Run.single {s s' : S} {l : L} (h : M.step s l s') : M.Run s [l] s' := .cons h (.nil s')

theorem Reachable.of_init {s : S} (h : M.init s) : M.Reachable s := ⟨s, [], h, .nil s⟩

theorem Reachable.step {s s' : S} {l : L} (hs : M.Reachable s) (h : M.step s l s') :
    M.Reachable s' := by
  obtain ⟨s₀, ls, h₀, hr⟩ := hs
  exact ⟨s₀, ls ++ [l], h₀, hr.append (.single h)⟩

theorem Reachable.run {s s' : S} {ls : List L} (hs : M.Reachable s) (h : M.Run s ls s') :
    M.Reachable s' := by
  obtain ⟨s₀, ls₀, h₀, hr⟩ := hs
  exact ⟨s₀, ls₀ ++ ls, h₀, hr.append h⟩

/-- An invariant holds all along a run. -/
theorem Invariant.run {P : S → Prop} (hP : M.Invariant P) {s s' : S} {ls : List L}
    (h : M.Run s ls s') (hs : P s) : P s' := by
  induction h with
  | nil => exact hs
  | cons hstep _ ih => exact ih (hP.step _ _ _ hs hstep)

/-- An invariant holds in every reachable state. -/
theorem Invariant.reachable {P : S → Prop} (hP : M.Invariant P) {s : S} (h : M.Reachable s) :
    P s := by
  obtain ⟨s₀, ls, h₀, hr⟩ := h
  exact hP.run hr (hP.init s₀ h₀)

/-- A system whose initial states and steps are among `M'`'s reaches only
    states that `M'` reaches. -/
theorem Reachable.mono {M' : LTS S L} (hinit : ∀ s, M.init s → M'.init s)
    (hstep : ∀ s l s', M.step s l s' → M'.step s l s') {s : S} (h : M.Reachable s) :
    M'.Reachable s := by
  obtain ⟨s₀, ls, h₀, hr⟩ := h
  refine ⟨s₀, ls, hinit s₀ h₀, ?_⟩
  clear h₀
  induction hr with
  | nil => exact .nil _
  | cons hs _ ih => exact .cons (hstep _ _ _ hs) ih

end LTS

end Proxyd.Lib
