import Mathlib.Data.List.Sort
import Mathlib.Data.List.Forall2

/-
  Proxyd.Lib.Reorder

  Two ways a list taken apart is put back in order.

    * Sorting by position: a permutation of a list of keys, sorted by the
      index each key has in that list, is the list again
      (`map_insertionSort_of_perm`).  An unstable sort would do as well,
      since the positions are distinct.
    * Filling slots: a list of slots, some filled and some holes, whose
      holes are filled in order (`fill`).  Taking the values of a list at
      the holes of slots that agree with it elsewhere and filling them back
      gives the list again (`fill_atHoles`); `filledFrom` lists the filled
      slots with their positions, the order in which inserting each at its
      position rebuilds the filled list; `holesFrom` the positions of the
      holes, which with those of the filled slots share out the positions in
      increasing order, the `k`-th hole taking the `k`-th value.
    * Cutting into chunks: the chunk `[i*m, min(i*m+m, n))` and the rest
      from `(i+1)*m` hold everything from `i*m` on (`mem_chunk_or_rest`).
-/

namespace Proxyd.Lib

variable {α β κ : Type}

/-! ## Sorting by position -/

/-- Sorting a permutation of `ks` by the position `pos` gives each key of
    `ks` puts it back in the order of `ks`. -/
theorem map_insertionSort_of_perm {key : α → κ} {pos : κ → ℕ} {ks : List κ} {xs : List α}
    (hpos : ∀ j (h : j < ks.length), pos ks[j] = j) (hp : (xs.map key).Perm ks) :
    (xs.insertionSort (fun a b => pos (key a) ≤ pos (key b))).map key = ks := by
  have : Std.Total (fun a b : α => pos (key a) ≤ pos (key b)) := ⟨fun _ _ => le_total _ _⟩
  have : IsTrans α (fun a b => pos (key a) ≤ pos (key b)) := ⟨fun _ _ _ => le_trans⟩
  set ys := xs.insertionSort (fun a b => pos (key a) ≤ pos (key b))
  have hperm : (ys.map key).Perm ks := ((List.perm_insertionSort _ xs).map key).trans hp
  -- the positions of `ks` are `0, …, n-1`, and those of the sorted list are sorted
  have hks : ks.map pos = List.range ks.length :=
    List.ext_getElem (by simp) fun j h₁ _ => by simp [hpos j (by simpa using h₁)]
  have hsorted : ((ys.map key).map pos).Pairwise (· ≤ ·) := by
    simpa [List.pairwise_map] using List.pairwise_insertionSort _ xs
  have hpos_eq : (ys.map key).map pos = ks.map pos :=
    (hperm.map pos).eq_of_pairwise' hsorted (hks ▸ List.pairwise_le_range)
  -- a key of the sorted list sits at the index of `ks` its position names
  refine List.ext_getElem hperm.length_eq fun j h₁ h₂ => ?_
  obtain ⟨m, hm, hkm⟩ := List.getElem_of_mem (hperm.subset (List.getElem_mem h₁))
  have hj : pos (ys.map key)[j] = j := by
    have := List.getElem_of_eq hpos_eq (by simpa using h₁)
    simp only [List.getElem_map] at this ⊢
    exact this.trans (hpos j h₂)
  have : m = j := by rw [← hpos m hm, hkm, hj]
  subst this
  exact hkm.symm

/-! ## Filling slots -/

/-- The slots `sl` with their holes filled, in order, from `xs`. -/
def fill : List (Option α) → List α → List α
  | [], _ => []
  | some a :: sl, xs => a :: fill sl xs
  | none :: sl, x :: xs => x :: fill sl xs
  | none :: sl, [] => fill sl []

/-- The elements of `ks` at the holes of `sl`. -/
def atHoles : List (Option α) → List β → List β
  | none :: sl, k :: ks => k :: atHoles sl ks
  | some _ :: sl, _ :: ks => atHoles sl ks
  | _, _ => []

/-- The number of holes. -/
def holes : List (Option α) → ℕ
  | [] => 0
  | none :: sl => holes sl + 1
  | some _ :: sl => holes sl

/-- The filled slots with their positions, counted from `i`. -/
def filledFrom : ℕ → List (Option α) → List (ℕ × α)
  | _, [] => []
  | i, some a :: sl => (i, a) :: filledFrom (i + 1) sl
  | i, none :: sl => filledFrom (i + 1) sl

/-- The positions of the holes, counted from `i`. -/
def holesFrom : ℕ → List (Option α) → List ℕ
  | _, [] => []
  | i, some _ :: sl => holesFrom (i + 1) sl
  | i, none :: sl => i :: holesFrom (i + 1) sl

@[simp] theorem fill_nil (xs : List α) : fill [] xs = [] := rfl
@[simp] theorem fill_some (a : α) (sl : List (Option α)) (xs : List α) :
    fill (some a :: sl) xs = a :: fill sl xs := rfl
@[simp] theorem fill_none (sl : List (Option α)) (x : α) (xs : List α) :
    fill (none :: sl) (x :: xs) = x :: fill sl xs := rfl

theorem fill_map (f : α → β) : ∀ (sl : List (Option α)) (xs : List α),
    (fill sl xs).map f = fill (sl.map (Option.map f)) (xs.map f)
  | [], _ => rfl
  | some a :: sl, xs => by simp [fill_map f sl xs]
  | none :: sl, x :: xs => by simp [fill_map f sl xs]
  | none :: sl, [] => by simp [fill, fill_map f sl []]

theorem atHoles_map_left (f : α → β) : ∀ (sl : List (Option α)) (ks : List κ),
    atHoles (sl.map (Option.map f)) ks = atHoles sl ks
  | none :: sl, k :: ks => by simp [atHoles, atHoles_map_left f sl ks]
  | some _ :: sl, _ :: ks => by simp [atHoles, atHoles_map_left f sl ks]
  | [], _ => rfl
  | none :: _, [] => rfl
  | some _ :: _, [] => rfl

theorem atHoles_map_right (g : β → κ) : ∀ (sl : List (Option α)) (ks : List β),
    atHoles sl (ks.map g) = (atHoles sl ks).map g
  | none :: sl, k :: ks => by simp [atHoles, atHoles_map_right g sl ks]
  | some _ :: sl, _ :: ks => by simp [atHoles, atHoles_map_right g sl ks]
  | [], _ => rfl
  | none :: _, [] => rfl
  | some _ :: _, [] => rfl

theorem atHoles_sublist : ∀ (sl : List (Option α)) (ks : List β), List.Sublist (atHoles sl ks) ks
  | none :: sl, _ :: ks => (atHoles_sublist sl ks).cons_cons _
  | some _ :: sl, _ :: ks => (atHoles_sublist sl ks).cons _
  | [], _ => List.nil_sublist _
  | none :: _, [] => List.nil_sublist _
  | some _ :: _, [] => List.nil_sublist _

theorem length_atHoles : ∀ {sl : List (Option α)} {ks : List β}, sl.length = ks.length →
    (atHoles sl ks).length = holes sl
  | none :: sl, _ :: ks, h => by
    have h' : sl.length = ks.length := by simpa using h
    simp [atHoles, holes, length_atHoles h']
  | some _ :: sl, _ :: ks, h => by
    have h' : sl.length = ks.length := by simpa using h
    simp [atHoles, holes, length_atHoles h']
  | [], [], _ => rfl

theorem length_fill : ∀ {sl : List (Option α)} {xs : List α}, xs.length = holes sl →
    (fill sl xs).length = sl.length
  | [], _, _ => rfl
  | some _ :: sl, xs, h => by
    have h' : xs.length = holes sl := h
    simp [length_fill h']
  | none :: sl, x :: xs, h => by
    have h' : xs.length = holes sl := by simpa [holes] using h
    simp [length_fill h']
  | none :: _, [], h => by simp [holes] at h

theorem length_holesFrom : ∀ (i : ℕ) (sl : List (Option α)), (holesFrom i sl).length = holes sl
  | _, [] => rfl
  | i, some _ :: sl => by simp [holesFrom, holes, length_holesFrom (i + 1) sl]
  | i, none :: sl => by simp [holesFrom, holes, length_holesFrom (i + 1) sl]

theorem le_of_mem_holesFrom : ∀ {i j : ℕ} {sl : List (Option α)}, j ∈ holesFrom i sl → i ≤ j
  | _, _, [], h => absurd h List.not_mem_nil
  | i, j, some _ :: sl, h => Nat.le_of_succ_le (le_of_mem_holesFrom (show j ∈ holesFrom (i + 1) sl from h))
  | i, j, none :: sl, h => by
    rcases List.mem_cons.mp h with rfl | h
    · exact le_rfl
    · exact Nat.le_of_succ_le (le_of_mem_holesFrom h)

theorem le_of_mem_filledFrom : ∀ {i j : ℕ} {a : α} {sl : List (Option α)}, (j, a) ∈ filledFrom i sl → i ≤ j
  | _, _, _, [], h => absurd h List.not_mem_nil
  | i, j, a, some b :: sl, h => by
    rcases List.mem_cons.mp h with h | h
    · exact le_of_eq (Prod.mk.inj h).1.symm
    · exact Nat.le_of_succ_le (le_of_mem_filledFrom h)
  | i, j, a, none :: sl, h => Nat.le_of_succ_le (le_of_mem_filledFrom (show (j, a) ∈ filledFrom (i + 1) sl from h))

/-- The hole positions increase. -/
theorem pairwise_holesFrom : ∀ (i : ℕ) (sl : List (Option α)), (holesFrom i sl).Pairwise (· < ·)
  | _, [] => List.Pairwise.nil
  | i, some _ :: sl => pairwise_holesFrom (i + 1) sl
  | i, none :: sl => List.Pairwise.cons (fun _ hj => le_of_mem_holesFrom hj) (pairwise_holesFrom (i + 1) sl)

/-- The positions of the filled slots increase. -/
theorem pairwise_filledFrom : ∀ (i : ℕ) (sl : List (Option α)),
    ((filledFrom i sl).map Prod.fst).Pairwise (· < ·)
  | _, [] => List.Pairwise.nil
  | i, some a :: sl => by
    refine List.Pairwise.cons (fun j hj => ?_) (pairwise_filledFrom (i + 1) sl)
    obtain ⟨⟨j', b⟩, hmem, rfl⟩ := List.mem_map.mp hj
    exact le_of_mem_filledFrom hmem
  | i, none :: sl => pairwise_filledFrom (i + 1) sl

/-- The holes and the filled slots share out the positions. -/
theorem holesFrom_append_filledFrom_perm : ∀ (i : ℕ) (sl : List (Option α)),
    (holesFrom i sl ++ (filledFrom i sl).map Prod.fst).Perm (List.range' i sl.length)
  | _, [] => List.Perm.refl _
  | i, some a :: sl => by
    have ih := holesFrom_append_filledFrom_perm (i + 1) sl
    simp only [holesFrom, filledFrom, List.map_cons, List.length_cons, List.range'_succ]
    exact List.perm_middle.trans (ih.cons i)
  | i, none :: sl => by
    have ih := holesFrom_append_filledFrom_perm (i + 1) sl
    simp only [holesFrom, filledFrom, List.length_cons, List.range'_succ, List.cons_append]
    exact ih.cons i

/-- A filled slot keeps its value in the filled list. -/
theorem getElem?_fill_of_mem_filledFrom : ∀ {i j : ℕ} {a : α} {sl : List (Option α)} {xs : List α},
    xs.length = holes sl → (j, a) ∈ filledFrom i sl → (fill sl xs)[j - i]? = some a
  | _, _, _, [], _, _, h => absurd h List.not_mem_nil
  | i, j, a, some b :: sl, xs, hx, h => by
    rcases List.mem_cons.mp h with h | h
    · obtain ⟨rfl, rfl⟩ := Prod.mk.inj h
      simp
    · have hle := le_of_mem_filledFrom h
      have hj : j - i = j - (i + 1) + 1 := by omega
      rw [fill_some, hj, List.getElem?_cons_succ]
      exact getElem?_fill_of_mem_filledFrom (by simpa [holes] using hx) h
  | i, j, a, none :: sl, x :: xs, hx, h => by
    have hle := le_of_mem_filledFrom (show (j, a) ∈ filledFrom (i + 1) sl from h)
    have hj : j - i = j - (i + 1) + 1 := by omega
    rw [fill_none, hj, List.getElem?_cons_succ]
    exact getElem?_fill_of_mem_filledFrom (by simpa [holes] using hx) h
  | _, _, _, none :: _, [], hx, _ => by simp [holes] at hx

/-- The `k`-th hole takes the `k`-th value. -/
theorem getElem?_fill_holesFrom : ∀ {i k j : ℕ} {sl : List (Option α)} {xs : List α},
    xs.length = holes sl → (holesFrom i sl)[k]? = some j → (fill sl xs)[j - i]? = xs[k]?
  | _, _, _, [], _, _, h => by simp [holesFrom] at h
  | i, k, j, some b :: sl, xs, hx, h => by
    have h' : (holesFrom (i + 1) sl)[k]? = some j := h
    have hle := le_of_mem_holesFrom (List.mem_of_getElem? h')
    have hj : j - i = j - (i + 1) + 1 := by omega
    rw [fill_some, hj, List.getElem?_cons_succ]
    exact getElem?_fill_holesFrom (by simpa [holes] using hx) h'
  | i, 0, j, none :: sl, x :: xs, _, h => by
    obtain rfl : i = j := by simpa [holesFrom] using h
    simp
  | i, k + 1, j, none :: sl, x :: xs, hx, h => by
    have h' : (holesFrom (i + 1) sl)[k]? = some j := by simpa [holesFrom] using h
    have hle := le_of_mem_holesFrom (List.mem_of_getElem? h')
    have hj : j - i = j - (i + 1) + 1 := by omega
    rw [fill_none, hj, List.getElem?_cons_succ, List.getElem?_cons_succ]
    exact getElem?_fill_holesFrom (by simpa [holes] using hx) h'
  | _, _, _, none :: _, [], hx, _ => by simp [holes] at hx

/-- The `k`-th value taken at the holes is the one at the `k`-th hole. -/
theorem getElem?_atHoles_holesFrom : ∀ {i k j : ℕ} {sl : List (Option α)} {ks : List β},
    sl.length = ks.length → (holesFrom i sl)[k]? = some j → (atHoles sl ks)[k]? = ks[j - i]?
  | _, _, _, [], _, _, h => by simp [holesFrom] at h
  | i, k, j, some b :: sl, _ :: ks, hl, h => by
    have h' : (holesFrom (i + 1) sl)[k]? = some j := h
    have hle := le_of_mem_holesFrom (List.mem_of_getElem? h')
    have hj : j - i = j - (i + 1) + 1 := by omega
    rw [atHoles, hj, List.getElem?_cons_succ]
    exact getElem?_atHoles_holesFrom (by simpa using hl) h'
  | i, 0, j, none :: sl, _ :: ks, _, h => by
    obtain rfl : i = j := by simpa [holesFrom] using h
    simp [atHoles]
  | i, k + 1, j, none :: sl, _ :: ks, hl, h => by
    have h' : (holesFrom (i + 1) sl)[k]? = some j := by simpa [holesFrom] using h
    have hle := le_of_mem_holesFrom (List.mem_of_getElem? h')
    have hj : j - i = j - (i + 1) + 1 := by omega
    rw [atHoles, hj, List.getElem?_cons_succ, List.getElem?_cons_succ]
    exact getElem?_atHoles_holesFrom (by simpa using hl) h'
  | _, _, _, _ :: _, [], hl, _ => by simp at hl

/-- Lists related pointwise by equal images have equal images. -/
theorem map_eq_map_of_forall₂ {f : α → κ} {g : β → κ} {l₁ : List α} {l₂ : List β}
    (h : List.Forall₂ (fun a b => f a = g b) l₁ l₂) : l₁.map f = l₂.map g := by
  induction h with
  | nil => rfl
  | cons hab _ ih => simp [hab, ih]

/-- Lists with equal images are related pointwise by their images. -/
theorem forall₂_of_map_eq {f : α → κ} {g : β → κ} :
    ∀ {l₁ : List α} {l₂ : List β}, l₁.map f = l₂.map g → List.Forall₂ (fun a b => f a = g b) l₁ l₂
  | [], [], _ => .nil
  | _ :: _, _ :: _, h => by
    rw [List.map_cons, List.map_cons, List.cons.injEq] at h
    exact .cons h.1 (forall₂_of_map_eq h.2)
  | [], _ :: _, h => by simp at h
  | _ :: _, [], h => by simp at h

/-- A pointwise relation relates members of the two lists. -/
theorem forall₂_mem {R : α → β → Prop} :
    ∀ {xs : List α} {ys : List β}, List.Forall₂ R xs ys → List.Forall₂ (fun x y => R x y ∧ x ∈ xs ∧ y ∈ ys) xs ys
  | _, _, .nil => .nil
  | _, _, .cons h hs =>
    .cons ⟨h, List.mem_cons_self, List.mem_cons_self⟩
      ((forall₂_mem hs).imp fun _ _ h => ⟨h.1, List.mem_cons_of_mem _ h.2.1, List.mem_cons_of_mem _ h.2.2⟩)

/-- Two pointwise relations compose. -/
theorem forall₂_comp {R : α → β → Prop} {S : β → κ → Prop} :
    ∀ {xs : List α} {ys : List β} {zs : List κ}, List.Forall₂ R xs ys → List.Forall₂ S ys zs →
      List.Forall₂ (fun x z => ∃ y, R x y ∧ S y z) xs zs
  | _, _, _, .nil, .nil => .nil
  | _, _, _, .cons hxy hxs, .cons hyz hys => .cons ⟨_, hxy, hyz⟩ (forall₂_comp hxs hys)

/-- Slots related to `ks` where they are filled, filled from values related
    to the values of `ks` at their holes, are related to `ks`. -/
theorem forall₂_fill {R : α → κ → Prop} :
    ∀ {sl : List (Option α)} {xs : List α} {ks : List κ},
      List.Forall₂ (fun o k => o = none ∨ ∃ a, o = some a ∧ R a k) sl ks →
      List.Forall₂ R xs (atHoles sl ks) → List.Forall₂ R (fill sl xs) ks
  | _, _, _, .nil, _ => .nil
  | some _ :: _, _, _ :: _, .cons hok hsl, hxs => by
    obtain ⟨a, ha, hR⟩ := hok.resolve_left (Option.some_ne_none _)
    cases ha
    exact .cons hR (forall₂_fill hsl hxs)
  | none :: _, x :: xs, _ :: _, .cons _ hsl, hxs => by
    rw [atHoles] at hxs
    cases hxs with
    | cons hx hxs => exact .cons hx (forall₂_fill hsl hxs)
  | none :: _, [], _ :: _, .cons _ _, hxs => by
    rw [atHoles] at hxs
    cases hxs

/-- Slots that agree with `ks` where they are filled, filled back from the
    values of `ks` at their holes, give `ks`. -/
theorem fill_atHoles {sl : List (Option κ)} {ks : List κ}
    (h : List.Forall₂ (fun o k => o = none ∨ o = some k) sl ks) : fill sl (atHoles sl ks) = ks := by
  induction h with
  | nil => rfl
  | @cons o k sl ks hok _ ih =>
    rcases hok with rfl | rfl
    · simp [atHoles, ih]
    · simp [atHoles, ih]

/-! ## Chunks -/

/-- What lies from `i * m` on lies in the chunk `[i*m, min(i*m+m, n))` or
    from `(i+1) * m` on. -/
theorem mem_chunk_or_rest {l : List α} {a : α} (i m : ℕ) (h : a ∈ l.drop (i * m)) :
    a ∈ (l.drop (i * m)).take (min (i * m + m) l.length - i * m) ∨ a ∈ l.drop ((i + 1) * m) := by
  rw [← List.take_append_drop (min (i * m + m) l.length - i * m) (l.drop (i * m)), List.mem_append] at h
  refine h.imp_right fun h => ?_
  rw [List.drop_drop] at h
  by_cases hle : i * m + m ≤ l.length
  · rwa [show i * m + (min (i * m + m) l.length - i * m) = (i + 1) * m by
      rw [Nat.succ_mul]; omega] at h
  · rw [List.drop_eq_nil_of_le (by omega)] at h
    exact absurd h List.not_mem_nil

end Proxyd.Lib
