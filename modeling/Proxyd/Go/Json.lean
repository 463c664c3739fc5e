import Mathlib.Data.List.Sort
import Mathlib.Data.List.Nodup
import Proxyd.Go.FloatSpec

/-
  Proxyd.Go.Json

  JSON values as Go's `encoding/json` reads and writes them.

  A JSON text is kept as its syntax tree, object members in order and
  duplicates included, since what a Go decoder makes of a text depends on
  both.  Over it:

    * `GoMap`: a Go `map[string]T`, an association list with distinct keys;
      decoding an object into a map assigns the members in order, so the last
      duplicate wins (`toGoMap`, `GoMap.get_toGoMap`);
    * `MapRange`: the order a `range` over a map visits its keys in;
    * `Json.goValue`: the text `json.Marshal` prints for the `interface{}`
      value `json.Unmarshal` decodes a text to: objects lose their duplicates
      and are printed with sorted keys, and numbers become `float64`s
      (`Proxyd.Go.Float`); `Json.badNumber?` is the literal out of the
      `float64` range that makes the decoding fail;
    * `foldMatches`: the members a Go struct field takes, matched by a
      case-insensitive comparison of names (`foldName`), the last one winning;
    * `unmarshalSlice`: decoding into `[]interface{}`;
    * `GoPanic`, `sliceIndex` and `deref`: indexing a slice past its end and
      dereferencing a `nil` pointer, which panic.

-/

namespace Proxyd.Go

/-- A JSON text as a syntax tree. -/
inductive Json where
  | null
  | bool (b : Bool)
  | num (lit : String)
  | str (s : String)
  | arr (elems : List Json)
  | obj (members : List (String × Json))
  deriving Repr, Inhabited

/-- The Go name of a JSON value's kind, as decoding errors print it. -/
def Json.kind : Json → String
  | .null => "null"
  | .bool _ => "bool"
  | .num _ => "number"
  | .str _ => "string"
  | .arr _ => "array"
  | .obj _ => "object"

/-! ## Go maps -/

section GoMap

variable {α : Type}

/-- A Go `map[string]α`: an association list with distinct keys, in the order
    the keys were first assigned. -/
structure GoMap (α : Type) where
  entries : List (String × α)
  nodup : (entries.map Prod.fst).Nodup

/-- The empty map. -/
def GoMap.empty : GoMap α := ⟨[], List.nodup_nil⟩

/-- `m[k]` with its `ok`: the value of a key, if present. -/
def GoMap.get (m : GoMap α) (k : String) : Option α :=
  (m.entries.find? (·.1 == k)).map (·.2)

/-- `m[k] = v`: the old entry of `k`, if any, gives way to the new one.  A Go
    map has no order; the entries' order only fixes how the proofs walk it. -/
def GoMap.set (m : GoMap α) (k : String) (v : α) : GoMap α where
  entries := m.entries.filter (·.1 != k) ++ [(k, v)]
  nodup := by
    rw [List.map_append, List.nodup_append]
    refine ⟨m.nodup.sublist ((List.filter_sublist).map Prod.fst), List.nodup_singleton k, ?_⟩
    simp

@[simp] theorem GoMap.get_empty (k : String) : (GoMap.empty : GoMap α).get k = none := rfl

/-- Dropping the entries of `k` hides `k` and nothing else. -/
theorem find?_filter_ne (es : List (String × α)) (k k' : String) :
    (es.filter (·.1 != k)).find? (·.1 == k') = if k = k' then none else es.find? (·.1 == k') := by
  induction es with
  | nil => simp
  | cons e es ih =>
    by_cases he : e.1 = k
    · -- `e` is dropped; it is found only when `k = k'`, which hides it anyway
      by_cases hk : k = k'
      · simp [he, hk]
      · have he' : e.1 ≠ k' := he ▸ hk
        simp [he, ih, hk]
    · by_cases he' : e.1 = k'
      · have hk : k ≠ k' := fun h => he (he'.trans h.symm)
        simp [he', hk, Ne.symm hk]
      · simp [he, he', ih]

@[simp] theorem GoMap.get_set (m : GoMap α) (k k' : String) (v : α) :
    (m.set k v).get k' = if k = k' then some v else m.get k' := by
  simp only [GoMap.get, GoMap.set, List.find?_append, find?_filter_ne]
  by_cases hk : k = k' <;> simp [hk]

/-- Decoding an object into a map: the members are assigned in order. -/
def toGoMap (ms : List (String × α)) : GoMap α :=
  ms.foldl (fun m kv => m.set kv.1 kv.2) GoMap.empty

/-- The value the last member with key `k` carries. -/
def lastMember (ms : List (String × α)) (k : String) : Option α :=
  (ms.reverse.find? (·.1 == k)).map (·.2)

@[simp] theorem lastMember_nil (k : String) : lastMember ([] : List (String × α)) k = none := rfl

theorem lastMember_cons (kv : String × α) (ms : List (String × α)) (k : String) :
    lastMember (kv :: ms) k = (lastMember ms k).or (if kv.1 = k then some kv.2 else none) := by
  by_cases h : kv.1 = k <;> simp [lastMember, List.find?_append, h]

/-- Decoding into a map keeps, for each key, the last duplicate. -/
theorem GoMap.get_foldl_set (ms : List (String × α)) (k : String) :
    ∀ m : GoMap α, (ms.foldl (fun m kv => m.set kv.1 kv.2) m).get k = (lastMember ms k).or (m.get k) := by
  -- the members still to assign override the map built so far
  induction ms with
  | nil => intro m; simp
  | cons kv ms ih =>
    intro m
    rw [List.foldl_cons, ih, GoMap.get_set, lastMember_cons, Option.or_assoc]
    by_cases h : kv.1 = k <;> simp [h]

theorem GoMap.get_toGoMap (ms : List (String × α)) (k : String) :
    (toGoMap ms).get k = lastMember ms k := by
  rw [toGoMap, GoMap.get_foldl_set, GoMap.get_empty, Option.or_none]

/-- In a list with distinct keys, the entry found for a key is any entry
    with that key. -/
theorem find?_key_eq_some_iff {l : List (String × α)} (hnd : (l.map Prod.fst).Nodup)
    {k : String} {kv : String × α} : l.find? (·.1 == k) = some kv ↔ kv ∈ l ∧ kv.1 = k := by
  constructor
  · intro h
    exact ⟨List.mem_of_find?_eq_some h, by simpa using List.find?_some h⟩
  · rintro ⟨hmem, hkey⟩
    have hsome : (l.find? (·.1 == k)).isSome := List.find?_isSome.mpr ⟨kv, hmem, by simpa using hkey⟩
    obtain ⟨kv', hkv'⟩ := Option.isSome_iff_exists.mp hsome
    have hmem' := List.mem_of_find?_eq_some hkv'
    have hkey' : kv'.1 = k := by simpa using List.find?_some hkv'
    rw [hkv', List.inj_on_of_nodup_map hnd hmem' hmem (hkey'.trans hkey.symm)]

/-- Lookup in a list with distinct keys does not depend on its order. -/
theorem find?_key_perm {l₁ l₂ : List (String × α)} (hnd : (l₁.map Prod.fst).Nodup)
    (hp : l₁.Perm l₂) (k : String) : l₁.find? (·.1 == k) = l₂.find? (·.1 == k) := by
  have hnd₂ : (l₂.map Prod.fst).Nodup := (hp.map Prod.fst).nodup_iff.mp hnd
  apply Option.ext
  intro kv
  rw [find?_key_eq_some_iff hnd, find?_key_eq_some_iff hnd₂, hp.mem_iff]

/-- The last member of any listing of a map's entries is the map's value. -/
theorem GoMap.lastMember_of_perm (m : GoMap α) {l : List (String × α)} (hp : l.Perm m.entries)
    (k : String) : lastMember l k = m.get k := by
  have hrev : l.reverse.Perm m.entries := (List.reverse_perm l).trans hp
  rw [lastMember, GoMap.get, find?_key_perm ((hrev.map Prod.fst).nodup_iff.mpr m.nodup) hrev]

end GoMap

/-- The order in which a `range` over a Go map visits its keys: some
    permutation of them, of the runtime's choosing. -/
structure MapRange (κ : Type) where
  order : List κ → List κ
  perm : ∀ ks, (order ks).Perm ks

/-! ## Go values -/

/-- Members sorted by key, the order in which `json.Marshal` prints a map. -/
def sortByKey {α : Type} (ms : List (String × α)) : List (String × α) :=
  ms.insertionSort (fun a b => a.1 ≤ b.1)

/-- A number decoded into `interface{}` is a `float64`, printed again as
    `json.Marshal` prints one.  A literal past the `float64` range decodes to
    `nil`, and the decoder reports it (`Json.badNumber?`). -/
def goNumber (lit : String) : Json :=
  match parseFloat lit with
  | some f => .num (formatFloat f)
  | none => .null

mutual

/-- The text `json.Marshal` prints for the `interface{}` value that
    `json.Unmarshal` decodes `j` to. -/
def Json.goValue : Json → Json
  | .num lit => goNumber lit
  | .arr es => .arr (goValues es)
  | .obj ms => .obj (sortByKey (toGoMap (goMembers ms)).entries)
  | j => j

/-- `Json.goValue` over the elements of an array. -/
def goValues : List Json → List Json
  | [] => []
  | j :: js => j.goValue :: goValues js

/-- `Json.goValue` over the values of an object's members. -/
def goMembers : List (String × Json) → List (String × Json)
  | [] => []
  | (k, v) :: ms => (k, v.goValue) :: goMembers ms

end

mutual

/-- The first number literal of `j`, in the order of the text, that does not
    decode to a `float64`: the error the decoder saves and returns. -/
def Json.badNumber? : Json → Option String
  | .num lit => if (parseFloat lit).isSome then none else some lit
  | .arr es => badNumbers? es
  | .obj ms => badMembers? ms
  | _ => none

/-- `Json.badNumber?` over the elements of an array. -/
def badNumbers? : List Json → Option String
  | [] => none
  | j :: js => j.badNumber?.or (badNumbers? js)

/-- `Json.badNumber?` over the values of an object's members. -/
def badMembers? : List (String × Json) → Option String
  | [] => none
  | (_, v) :: ms => v.badNumber?.or (badMembers? ms)

end

/-- The decoder's error for a number literal past the `float64` range. -/
def numberError (lit : String) : String :=
  "json: cannot unmarshal number " ++ lit ++ " into Go value of type float64"

@[simp] theorem goValue_str (s : String) : (Json.str s).goValue = .str s := by
  simp [Json.goValue]

@[simp] theorem goValue_null : Json.null.goValue = .null := by
  simp [Json.goValue]

theorem goValues_eq_map (js : List Json) : goValues js = js.map Json.goValue := by
  induction js with
  | nil => simp [goValues]
  | cons j js ih => simp [goValues, ih]

theorem goMembers_eq_map (ms : List (String × Json)) :
    goMembers ms = ms.map fun kv => (kv.1, kv.2.goValue) := by
  induction ms with
  | nil => simp [goMembers]
  | cons kv ms ih => simp [goMembers, ih]

theorem goNumber_ne_str (lit s : String) : goNumber lit ≠ .str s := by
  unfold goNumber
  split <;> simp

/-- The number `json.Marshal` prints for a decoded literal reads back as the
    `float64` the literal itself reads as. -/
theorem parseFloat_goNumber {lit lit' : String} (h : goNumber lit = .num lit') :
    parseFloat lit' = parseFloat lit := by
  unfold goNumber at h
  split at h
  · rename_i f hf
    cases h
    rw [parseFloat_formatFloat, hf]
  · cases h

/-- `1.50` is printed again as `1.5`, which reads as the same `float64`. -/
theorem parseFloat_goNumber_trailing_zero :
    goNumber "1.50" = .num "1.5" ∧ parseFloat "1.5" = parseFloat "1.50" :=
  ⟨rfl, parseFloat_goNumber rfl⟩

/-- A string is kept as it is, and only a string decodes to one. -/
theorem goValue_eq_str_iff (j : Json) (s : String) : j.goValue = .str s ↔ j = .str s := by
  cases j with
  | num lit => simp only [Json.goValue, reduceCtorEq, iff_false]; exact goNumber_ne_str lit s
  | _ => simp [Json.goValue]

theorem lastMember_goMembers (ms : List (String × Json)) (k : String) :
    lastMember (goMembers ms) k = (lastMember ms k).map Json.goValue := by
  simp only [lastMember, goMembers_eq_map, ← List.map_reverse, List.find?_map, Option.map_map]
  rfl

/-- Only an object decodes to a map, printed with its members sorted. -/
theorem goValue_eq_obj {j : Json} {ms' : List (String × Json)} (h : j.goValue = .obj ms') :
    ∃ ms, j = .obj ms ∧ ms' = sortByKey (toGoMap (goMembers ms)).entries := by
  cases j with
  | num lit =>
    simp only [Json.goValue] at h
    unfold goNumber at h
    split at h <;> cases h
  | obj ms =>
    simp only [Json.goValue, Json.obj.injEq] at h
    exact ⟨ms, rfl, h.symm⟩
  | _ => simp [Json.goValue] at h

/-- A map printed with sorted keys gives each key its value. -/
theorem lastMember_sortByKey {α : Type} (g : GoMap α) (k : String) :
    lastMember (sortByKey g.entries) k = g.get k :=
  g.lastMember_of_perm (List.perm_insertionSort _ _) k

/-- `json.Unmarshal` into `[]interface{}`: an array gives its elements, unless
    a number in it is past the `float64` range; `null` leaves the slice `nil`,
    and any other value is a type error. -/
def unmarshalSlice : Json → Except String (List Json)
  | .arr es =>
    match badNumbers? es with
    | some lit => .error (numberError lit)
    | none => .ok (goValues es)
  | .null => .ok []
  | j => .error ("json: cannot unmarshal " ++ j.kind ++ " into Go value of type []interface \x7b\x7d")

/-! ## Slices and panics -/

/-- A Go run-time panic, by its message. -/
structure GoPanic where
  msg : String
  deriving DecidableEq, Repr

/-- `s[i]`: the element, or the index-out-of-range panic. -/
def sliceIndex {α : Type} (xs : List α) (i : Nat) : Except GoPanic α :=
  match xs[i]? with
  | some x => .ok x
  | none =>
    .error ⟨"runtime error: index out of range [" ++ toString i ++ "] with length " ++
      toString xs.length⟩

theorem sliceIndex_eq_ok {α : Type} {xs : List α} {i : Nat} {x : α} :
    sliceIndex xs i = .ok x ↔ xs[i]? = some x := by
  unfold sliceIndex
  split <;> simp_all

/-- The panic of a `nil` pointer dereference. -/
def nilDereference : GoPanic :=
  ⟨"runtime error: invalid memory address or nil pointer dereference"⟩

/-- `*p` for a pointer `p`. -/
def deref {α : Type} : Option α → Except GoPanic α
  | some a => .ok a
  | none => .error nilDereference

@[simp] theorem deref_eq_ok {α : Type} {p : Option α} {a : α} : deref p = .ok a ↔ p = some a := by
  cases p <;> simp [deref]

/-! ## Struct fields -/

/-- How `encoding/json` folds a rune before comparing a key with a field
    name: ASCII letters to upper case, and the two non-ASCII runes whose fold
    set holds an ASCII letter (the Kelvin sign and the long s) to it.  Other
    runes are kept; they never equal a rune of an ASCII field name. -/
def foldRune (c : Char) : Char :=
  if c.val < 128 then c.toUpper
  else if c = '\u212A' then 'K'
  else if c = '\u017F' then 'S'
  else c

/-- The folded form of a key or a field name. -/
def foldName (s : String) : String := String.ofList (s.toList.map foldRune)

/-- The values of the members a struct field `name` takes, in order; the
    decoder assigns each of them in turn. -/
def foldMatches {α : Type} (ms : List (String × α)) (name : String) : List α :=
  (ms.filter (fun kv => foldName kv.1 == foldName name)).map (·.2)

/-- A pointer field: the members it takes are decoded in turn, `null`
    resetting the pointer, and the last one wins. -/
def decodePtrField {α : Type} (dec : Json → Except String α) :
    List Json → Option α → Except String (Option α)
  | [], acc => .ok acc
  | .null :: vs, _ => decodePtrField dec vs none
  | v :: vs, _ => do
    let a ← dec v
    decodePtrField dec vs (some a)

/-- A `string` field: `null` leaves it as it was. -/
def decodeStringField (field : String) : List Json → String → Except String String
  | [], acc => .ok acc
  | .null :: vs, acc => decodeStringField field vs acc
  | .str s :: vs, _ => decodeStringField field vs s
  | v :: _, _ =>
    .error ("json: cannot unmarshal " ++ v.kind ++ " into Go struct field " ++ field ++ " of type string")

/-! ## Printing -/

/-- The characters of a string as a JSON string literal prints them. -/
def escapeChars : List Char → List Char
  | [] => []
  | c :: cs =>
    if c = '"' ∨ c = '\\' then '\\' :: c :: escapeChars cs else c :: escapeChars cs

/-- A string as a JSON string literal. -/
def quoteString (s : String) : String :=
  "\"" ++ String.ofList (escapeChars s.toList) ++ "\""

mutual

/-- The compact text of a JSON value. -/
def Json.render : Json → String
  | .null => "null"
  | .bool b => if b then "true" else "false"
  | .num lit => lit
  | .str s => quoteString s
  | .arr es => "[" ++ renderElems "" es ++ "]"
  | .obj ms => "\x7b" ++ renderMembers "" ms ++ "\x7d"

/-- The elements of an array, each after a separator (none before the first). -/
def renderElems (sep : String) : List Json → String
  | [] => ""
  | j :: js => sep ++ j.render ++ renderElems "," js

/-- The members of an object, each after a separator (none before the first). -/
def renderMembers (sep : String) : List (String × Json) → String
  | [] => ""
  | (k, v) :: ms => sep ++ quoteString k ++ ":" ++ v.render ++ renderMembers "," ms

end

end Proxyd.Go
