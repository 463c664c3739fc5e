import Mathlib.Data.List.Nodup

/-
  Proxyd.Lib.LinkedMap

  A map that remembers the order in which its keys were first put, as a
  linked hash map does: `keys` lists them in that order, a `put` on a key
  already there changes its value in place, and `remove` drops a key
  without moving the others.  The entries are a list whose keys are
  distinct, a field of the structure.
-/

namespace Proxyd.Lib

variable {K V : Type} [DecidableEq K]

/-- Give the entry of `k` the value `v` in place, or append one. -/
def putEntries (k : K) (v : V) : List (K × V) → List (K × V)
  | [] => [(k, v)]
  | e :: es => if e.1 = k then (k, v) :: es else e :: putEntries k v es

theorem map_fst_putEntries_of_mem (k : K) (v : V) :
    ∀ {es : List (K × V)}, k ∈ es.map Prod.fst → (putEntries k v es).map Prod.fst = es.map Prod.fst
  | [], h => absurd h List.not_mem_nil
  | e :: es, h => by
    by_cases he : e.1 = k
    · simp [putEntries, he]
    · have h' : k ∈ es.map Prod.fst := by simpa [Ne.symm he] using h
      simp [putEntries, he, map_fst_putEntries_of_mem k v h']

theorem putEntries_of_not_mem (k : K) (v : V) :
    ∀ {es : List (K × V)}, k ∉ es.map Prod.fst → putEntries k v es = es ++ [(k, v)]
  | [], _ => rfl
  | e :: es, h => by
    have he : e.1 ≠ k := fun he => h (by simp [← he])
    have h' : k ∉ es.map Prod.fst := fun h' => h (by simp at h' ⊢; exact .inr h')
    simp [putEntries, he, putEntries_of_not_mem k v h']

theorem nodup_putEntries (k : K) (v : V) {es : List (K × V)} (h : (es.map Prod.fst).Nodup) :
    ((putEntries k v es).map Prod.fst).Nodup := by
  by_cases hk : k ∈ es.map Prod.fst
  · rwa [map_fst_putEntries_of_mem k v hk]
  · rw [putEntries_of_not_mem k v hk, List.map_append, List.nodup_append]
    refine ⟨h, List.nodup_singleton k, fun a ha b hb hab => hk ?_⟩
    rw [List.map_singleton, List.mem_singleton] at hb
    rw [hab, hb] at ha
    exact ha

/-- An insertion-ordered map with distinct keys. -/
structure LinkedMap (K V : Type) where
  entries : List (K × V)
  nodup : (entries.map Prod.fst).Nodup

namespace LinkedMap

def empty : LinkedMap K V := ⟨[], List.nodup_nil⟩

/-- The keys, in the order they were first put. -/
def keys (m : LinkedMap K V) : List K := m.entries.map Prod.fst

def size (m : LinkedMap K V) : ℕ := m.entries.length

def get (m : LinkedMap K V) (k : K) : Option V := m.entries.lookup k

def put (m : LinkedMap K V) (k : K) (v : V) : LinkedMap K V :=
  ⟨putEntries k v m.entries, nodup_putEntries k v m.nodup⟩

def remove (m : LinkedMap K V) (k : K) : LinkedMap K V :=
  ⟨m.entries.filter (·.1 ≠ k), (List.filter_sublist.map Prod.fst).nodup m.nodup⟩

/-- A put leaves the new entry and the entries of the other keys. -/
theorem mem_entries_put (m : LinkedMap K V) (k : K) (v : V) (e : K × V) :
    e ∈ (m.put k v).entries ↔ e = (k, v) ∨ (e ∈ m.entries ∧ e.1 ≠ k) := by
  obtain ⟨es, hnd⟩ := m
  simp only [put]
  induction es with
  | nil => simp [putEntries]
  | cons e₀ es ih =>
    rw [List.map_cons, List.nodup_cons] at hnd
    by_cases he : e₀.1 = k
    · -- the old entry of `k` is replaced in place; no other entry has key `k`
      have hk : ∀ e ∈ es, e.1 ≠ k := fun e hmem hek =>
        hnd.1 (he ▸ hek ▸ List.mem_map_of_mem hmem)
      simp only [putEntries, he, if_true, List.mem_cons]
      constructor
      · rintro (rfl | hmem)
        · exact .inl rfl
        · exact .inr ⟨.inr hmem, hk e hmem⟩
      · rintro (rfl | ⟨rfl | hmem, hne⟩)
        · exact .inl rfl
        · exact absurd he hne
        · exact .inr hmem
    · simp only [putEntries, he, if_false, List.mem_cons, ih hnd.2]
      constructor
      · rintro (rfl | rfl | ⟨hmem, hne⟩)
        · exact .inr ⟨.inl rfl, he⟩
        · exact .inl rfl
        · exact .inr ⟨.inr hmem, hne⟩
      · rintro (rfl | ⟨rfl | hmem, hne⟩)
        · exact .inr (.inl rfl)
        · exact .inl rfl
        · exact .inr (.inr ⟨hmem, hne⟩)

theorem mem_entries_remove (m : LinkedMap K V) (k : K) (e : K × V) :
    e ∈ (m.remove k).entries ↔ e ∈ m.entries ∧ e.1 ≠ k := by
  simp [remove]

/-- Removing the keys of a list, one after another. -/
theorem mem_entries_foldl_remove (ks : List K) (m : LinkedMap K V) (e : K × V) :
    e ∈ (ks.foldl remove m).entries ↔ e ∈ m.entries ∧ e.1 ∉ ks := by
  induction ks generalizing m with
  | nil => simp
  | cons k ks ih =>
    rw [List.foldl_cons, ih, mem_entries_remove, List.mem_cons, not_or, and_assoc]

omit [DecidableEq K] in
/-- Two entries with the same key are the same entry. -/
theorem eq_of_mem_entries {m : LinkedMap K V} {e e' : K × V} (he : e ∈ m.entries)
    (he' : e' ∈ m.entries) (hk : e.1 = e'.1) : e = e' :=
  List.inj_on_of_nodup_map m.nodup he he' hk

end LinkedMap

end Proxyd.Lib
