import Mathlib.Data.List.Basic

/-
  Proxyd.Lib.Lru

  A least-recently-used cache of bounded size, kept as `simplelru.LRU` of
  hashicorp/golang-lru keeps it: the entries in order of use, the most
  recently used first, each key once and at most `size` of them.  `add`
  puts an entry at the front, replacing the key's old entry or, when the
  cache is full, evicting the oldest; `get` moves the entry it finds to the
  front.

  What is proved is what a user of the cache relies on: a key just added is
  found with its value (`get_add_self`), and a property of every entry is
  kept by both operations (`All.add`, `All.get`), so whatever `get` returns
  was added under its key (`All.get_fst`).
-/

namespace Proxyd.Lib

/-- An LRU cache: its entries, the most recently used first. -/
structure Lru (α β : Type) where
  size : ℕ
  entries : List (α × β)
  size_pos : 0 < size
  nodup : (entries.map Prod.fst).Nodup
  length_le : entries.length ≤ size

namespace Lru

variable {α β : Type}

/-- `NewLRU(size)`: an empty cache. -/
def new (size : ℕ) (h : 0 < size) : Lru α β :=
  ⟨size, [], h, List.nodup_nil, Nat.zero_le _⟩

/-- Every entry of the cache satisfies `P`. -/
def All (P : α → β → Prop) (c : Lru α β) : Prop := ∀ e ∈ c.entries, P e.1 e.2

section All

variable {P Q : α → β → Prop}

theorem All.mono {c : Lru α β} (hc : c.All P) (hPQ : ∀ k v, P k v → Q k v) : c.All Q :=
  fun e he => hPQ _ _ (hc e he)

end All

variable [DecidableEq α]

/-- The entries with the one of key `k` moved to the front and given the
    value `v`. -/
def moveFront (es : List (α × β)) (k : α) (v : β) : List (α × β) :=
  (k, v) :: es.filter (·.1 != k)

theorem nodup_moveFront {es : List (α × β)} (hnd : (es.map Prod.fst).Nodup) (k : α) (v : β) :
    ((moveFront es k v).map Prod.fst).Nodup := by
  refine List.nodup_cons.mpr ⟨?_, (List.filter_sublist.map Prod.fst).nodup hnd⟩
  simp [List.mem_filter]

theorem length_moveFront_le {es : List (α × β)} {k : α} (hk : k ∈ es.map Prod.fst) (v : β) :
    (moveFront es k v).length ≤ es.length := by
  obtain ⟨⟨k', v'⟩, hmem, rfl⟩ := List.mem_map.mp hk
  have hlt : (es.filter (·.1 != k')).length < es.length :=
    List.length_filter_lt_length_iff_exists.mpr ⟨(k', v'), hmem, by simp⟩
  simp only [moveFront, List.length_cons]
  omega

theorem mem_moveFront {es : List (α × β)} {k : α} {v : β} {e : α × β}
    (h : e ∈ moveFront es k v) : e = (k, v) ∨ e ∈ es := by
  rcases List.mem_cons.mp h with h | h
  · exact .inl h
  · exact .inr (List.mem_filter.mp h).1

theorem lookup_filter_ne (es : List (α × β)) {k k' : α} (h : k' ≠ k) :
    (es.filter (·.1 != k)).lookup k' = es.lookup k' := by
  induction es with
  | nil => rfl
  | cons e es ih =>
    obtain ⟨k₀, v₀⟩ := e
    by_cases hk : k₀ = k
    · subst hk
      have hb : (k' == k₀) = false := beq_false_of_ne h
      simp [ih, List.lookup_cons, hb]
    · simp [hk, List.lookup_cons, ih]

theorem lookup_moveFront (es : List (α × β)) (k : α) (v : β) (k' : α) :
    (moveFront es k v).lookup k' = if k' = k then some v else es.lookup k' := by
  by_cases h : k' = k
  · simp [moveFront, h]
  · have hb : (k' == k) = false := beq_false_of_ne h
    simp [moveFront, List.lookup_cons, h, hb, lookup_filter_ne es h]

theorem mem_of_lookup_eq_some {es : List (α × β)} {k : α} {v : β} (h : es.lookup k = some v) :
    (k, v) ∈ es := by
  obtain ⟨l₁, l₂, rfl, -⟩ := List.lookup_eq_some_iff.mp h
  simp

theorem mem_keys_of_lookup_eq_some {es : List (α × β)} {k : α} {v : β}
    (h : es.lookup k = some v) : k ∈ es.map Prod.fst :=
  List.mem_map.mpr ⟨(k, v), mem_of_lookup_eq_some h, rfl⟩

/-- The entries after `Add(k, v)`: the key's entry moved to the front with
    the new value, or a new entry pushed to the front and the oldest removed
    when there are more than `size`. -/
def addEntries (size : ℕ) (es : List (α × β)) (k : α) (v : β) : List (α × β) :=
  if k ∈ es.map Prod.fst then moveFront es k v
  else if size < es.length + 1 then ((k, v) :: es).dropLast
  else (k, v) :: es

theorem mem_addEntries {size : ℕ} {es : List (α × β)} {k : α} {v : β} {e : α × β}
    (h : e ∈ addEntries size es k v) : e = (k, v) ∨ e ∈ es := by
  unfold addEntries at h
  split_ifs at h with hk hfull
  · exact mem_moveFront h
  · exact List.mem_cons.mp (List.dropLast_subset _ h)
  · exact List.mem_cons.mp h

theorem nodup_addEntries {size : ℕ} {es : List (α × β)} (hnd : (es.map Prod.fst).Nodup)
    (k : α) (v : β) : ((addEntries size es k v).map Prod.fst).Nodup := by
  unfold addEntries
  split_ifs with hk hfull
  · exact nodup_moveFront hnd k v
  · have hcons : (((k, v) :: es).map Prod.fst).Nodup := List.nodup_cons.mpr ⟨hk, hnd⟩
    exact ((List.dropLast_sublist _).map Prod.fst).nodup hcons
  · exact List.nodup_cons.mpr ⟨hk, hnd⟩

theorem length_addEntries_le {size : ℕ} {es : List (α × β)} (hlen : es.length ≤ size)
    (k : α) (v : β) : (addEntries size es k v).length ≤ size := by
  unfold addEntries
  split_ifs with hk hfull
  · exact Nat.le_trans (length_moveFront_le hk v) hlen
  · simp only [List.length_dropLast, List.length_cons]
    omega
  · simp only [List.length_cons]
    omega

/-- The key just added is found with its value: a full cache evicts its
    oldest entry, never the new one, since it holds at least one. -/
theorem lookup_addEntries_self {size : ℕ} (hsize : 0 < size) (es : List (α × β)) (k : α)
    (v : β) : (addEntries size es k v).lookup k = some v := by
  unfold addEntries
  split_ifs with hk hfull
  · simp [lookup_moveFront]
  · cases es with
    | nil => simp at hfull; omega
    | cons e es => simp [List.dropLast_cons_cons]
  · simp

/-- `Add(k, v)`. -/
def add (c : Lru α β) (k : α) (v : β) : Lru α β where
  size := c.size
  entries := addEntries c.size c.entries k v
  size_pos := c.size_pos
  nodup := nodup_addEntries c.nodup k v
  length_le := length_addEntries_le c.length_le k v

/-- `Get(k)`: the value of the key, its entry moved to the front. -/
def get (c : Lru α β) (k : α) : Option β × Lru α β :=
  match h : c.entries.lookup k with
  | some v =>
    (some v,
      { c with
        entries := moveFront c.entries k v
        nodup := nodup_moveFront c.nodup k v
        length_le :=
          Nat.le_trans (length_moveFront_le (mem_keys_of_lookup_eq_some h) v) c.length_le })
  | none => (none, c)

theorem get_fst (c : Lru α β) (k : α) : (c.get k).1 = c.entries.lookup k := by
  unfold get
  split
  · next v h => exact h.symm
  · next h => exact h.symm

theorem get_add_self (c : Lru α β) (k : α) (v : β) : ((c.add k v).get k).1 = some v := by
  rw [get_fst]
  exact lookup_addEntries_self c.size_pos c.entries k v

/-! ## Properties of every entry -/

variable {P : α → β → Prop}

theorem All.add {c : Lru α β} (hc : c.All P) {k : α} {v : β} (hkv : P k v) :
    (c.add k v).All P := by
  intro e he
  rcases mem_addEntries he with rfl | he
  · exact hkv
  · exact hc e he

theorem All.get {c : Lru α β} (hc : c.All P) (k : α) : (c.get k).2.All P := by
  unfold Lru.get
  split
  · intro e he
    rcases mem_moveFront he with rfl | he
    · exact hc _ (mem_of_lookup_eq_some ‹_›)
    · exact hc e he
  · exact hc

/-- What `get` returns was added under its key. -/
theorem All.get_fst {c : Lru α β} (hc : c.All P) {k : α} {v : β} (h : (c.get k).1 = some v) :
    P k v := by
  rw [Lru.get_fst] at h
  exact hc _ (mem_of_lookup_eq_some h)

end Lru

end Proxyd.Lib
