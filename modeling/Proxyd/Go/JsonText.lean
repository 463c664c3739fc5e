import Proxyd.Go.Json

/-
  Proxyd.Go.JsonText

  JSON values as text, the way `encoding/json` (Go 1.21) writes and reads
  them:

    * `Json.marshal`: the compact text `json.Marshal` prints, strings escaped
      by `appendString` with HTML escaping (`escapeChar`);
    * `parseText`: the scanner and decoder of `json.Unmarshal` on a whole
      text, with whitespace, every escape of a string literal (surrogate
      pairs included), number literals checked against the grammar, and the
      nesting limit of `10000`;
    * `unmarshalInterface`: `json.Unmarshal` into an `interface{}`, which
      reads the text and decodes it as `Json.goValue` does.

  The text is a list of characters: `encoding/json` reads bytes, and every
  text here is valid UTF-8, so the two agree.

  The main fact is the round trip `parseText_marshal`: the printed text of a
  value whose numbers are literals of the grammar, nested at most `10000`
  deep, reads back as that value.
-/

namespace Proxyd.Go

/-! ## Printing -/

/-- How `json.Marshal` writes one character of a string: quote and
    backslash escaped, `\n`, `\r` and `\t` by their short escapes, the other
    control characters and `<`, `>`, `&` as `\u00XX`, and the line and
    paragraph separators as `\u2028` and `\u2029`. -/
def escapeChar (c : Char) : List Char :=
  if c = '\\' ∨ c = '"' then ['\\', c]
  else if c = '\n' then ['\\', 'n']
  else if c = '\r' then ['\\', 'r']
  else if c = '\t' then ['\\', 't']
  else if c.toNat < 0x20 ∨ c = '<' ∨ c = '>' ∨ c = '&' then
    ['\\', 'u', '0', '0', Nat.digitChar (c.toNat / 16), Nat.digitChar (c.toNat % 16)]
  else if c = '\u2028' ∨ c = '\u2029' then
    ['\\', 'u', '2', '0', '2', Nat.digitChar (c.toNat % 16)]
  else [c]

/-- A string as `json.Marshal` prints it. -/
def quoteJson (s : String) : List Char :=
  '"' :: s.toList.flatMap escapeChar ++ ['"']

mutual

/-- The text `json.Marshal` prints for a value, without whitespace. -/
def Json.marshal : Json → List Char
  | .null => ['n', 'u', 'l', 'l']
  | .bool true => ['t', 'r', 'u', 'e']
  | .bool false => ['f', 'a', 'l', 's', 'e']
  | .num lit => lit.toList
  | .str s => quoteJson s
  | .arr [] => ['[', ']']
  | .arr (j :: js) => '[' :: j.marshal ++ marshalElemsTail js
  | .obj [] => ['{', '}']
  | .obj ((k, v) :: ms) => '{' :: quoteJson k ++ ':' :: v.marshal ++ marshalMembersTail ms

/-- The elements of an array after the first, and the closing bracket. -/
def marshalElemsTail : List Json → List Char
  | [] => [']']
  | j :: js => ',' :: j.marshal ++ marshalElemsTail js

/-- The members of an object after the first, and the closing brace. -/
def marshalMembersTail : List (String × Json) → List Char
  | [] => ['}']
  | (k, v) :: ms => ',' :: quoteJson k ++ ':' :: v.marshal ++ marshalMembersTail ms

end

mutual

/-- The number literals of a value, in the order of its text. -/
def Json.numbers : Json → List String
  | .num lit => [lit]
  | .arr es => elemsNumbers es
  | .obj ms => membersNumbers ms
  | _ => []

/-- `Json.numbers` over the elements of an array. -/
def elemsNumbers : List Json → List String
  | [] => []
  | j :: js => j.numbers ++ elemsNumbers js

/-- `Json.numbers` over the values of an object's members. -/
def membersNumbers : List (String × Json) → List String
  | [] => []
  | (_, v) :: ms => v.numbers ++ membersNumbers ms

end

mutual

/-- How deep arrays and objects nest in a value: the scanner's stack of
    open ones reaches this height. -/
def Json.depth : Json → ℕ
  | .arr es => elemsDepth es + 1
  | .obj ms => membersDepth ms + 1
  | _ => 0

/-- The deepest nesting among the elements of an array. -/
def elemsDepth : List Json → ℕ
  | [] => 0
  | j :: js => max j.depth (elemsDepth js)

/-- The deepest nesting among the values of an object's members. -/
def membersDepth : List (String × Json) → ℕ
  | [] => 0
  | (_, v) :: ms => max v.depth (membersDepth ms)

end

/-! ## Reading -/

/-- JSON whitespace. -/
def isSpace (c : Char) : Bool := c = ' ' || c = '\t' || c = '\n' || c = '\r'

/-- The text after the whitespace it starts with. -/
def skipSpace (cs : List Char) : List Char := cs.dropWhile isSpace

/-- A hex digit of either case, as `getu4` reads it. -/
def hexVal (c : Char) : Option ℕ :=
  if '0' ≤ c ∧ c ≤ '9' then some (c.toNat - '0'.toNat)
  else if 'a' ≤ c ∧ c ≤ 'f' then some (c.toNat - 'a'.toNat + 10)
  else if 'A' ≤ c ∧ c ≤ 'F' then some (c.toNat - 'A'.toNat + 10)
  else none

/-- `getu4`: the code unit of the four hex digits of a `\uXXXX` escape. -/
def getu4 (a b c d : Char) : Option ℕ := do
  let a ← hexVal a
  let b ← hexVal b
  let c ← hexVal c
  let d ← hexVal d
  return ((a * 16 + b) * 16 + c) * 16 + d

/-- `utf16.IsSurrogate`. -/
def isSurrogate (r : ℕ) : Bool := 0xD800 ≤ r && r < 0xE000

/-- `utf16.DecodeRune`: a high and a low surrogate make one rune; anything
    else is the replacement character. -/
def decodeSurrogates (r1 r2 : ℕ) : Char :=
  if 0xD800 ≤ r1 ∧ r1 < 0xDC00 ∧ 0xDC00 ≤ r2 ∧ r2 < 0xE000 then
    Char.ofNat (((r1 - 0xD800) * 0x400 + (r2 - 0xDC00)) + 0x10000)
  else '\uFFFD'

/-- The character a one-letter escape stands for. -/
def simpleEscape : Char → Option Char
  | '"' => some '"'
  | '\\' => some '\\'
  | '/' => some '/'
  | 'b' => some '\x08'
  | 'f' => some '\x0c'
  | 'n' => some '\n'
  | 'r' => some '\r'
  | 't' => some '\t'
  | _ => none

/-- A surrogate still waiting for its pair is read as the replacement
    character. -/
def flushSurrogate (high : Option ℕ) (res : Option (List Char × List Char)) :
    Option (List Char × List Char) :=
  match high with
  | some _ => res.map fun p => ('\uFFFD' :: p.1, p.2)
  | none => res

/-- The characters of a string literal after its opening quote, to its
    closing quote, and the text after it: the scanner's string states and
    `unquote` together, `high` the surrogate of the escape just read if it
    waits for its pair.  A surrogate escape joins a low surrogate escaped
    right after it; without one it is the replacement character, and the
    next escape is read on its own.  A raw control character is an error. -/
def unquoteRest : Option ℕ → List Char → Option (List Char × List Char)
  | high, '\\' :: 'u' :: a :: b :: c :: d :: rest =>
    match getu4 a b c d with
    | none => none
    | some r =>
      match high with
      | some h =>
        if decodeSurrogates h r ≠ '\uFFFD' then
          (unquoteRest none rest).map fun p => (decodeSurrogates h r :: p.1, p.2)
        else if isSurrogate r then
          (unquoteRest (some r) rest).map fun p => ('\uFFFD' :: p.1, p.2)
        else (unquoteRest none rest).map fun p => ('\uFFFD' :: Char.ofNat r :: p.1, p.2)
      | none =>
        if isSurrogate r then unquoteRest (some r) rest
        else (unquoteRest none rest).map fun p => (Char.ofNat r :: p.1, p.2)
  | high, cs =>
    flushSurrogate high <|
      match cs with
      | '"' :: rest => some ([], rest)
      | '\\' :: e :: rest =>
        match simpleEscape e with
        | some c => (unquoteRest none rest).map fun p => (c :: p.1, p.2)
        | none => none
      | c :: rest =>
        if c.toNat < 0x20 then none else (unquoteRest none rest).map fun p => (c :: p.1, p.2)
      | [] => none

/-- The characters of a string literal after its opening quote. -/
def parseStringBody (cs : List Char) : Option (List Char × List Char) := unquoteRest none cs

/-- The characters a number literal is made of. -/
def isNumberChar (c : Char) : Bool :=
  c.isDigit || c = '-' || c = '+' || c = '.' || c = 'e' || c = 'E'

/-- The scanner's nesting limit, `maxNestingDepth`. -/
def maxNestingDepth : ℕ := 10000

mutual

/-- One value after optional whitespace, with `fuel` for the recursion and
    `depth` arrays and objects still allowed to open; and the text after it.
    A number is the longest run of number characters, which must be a
    literal of the grammar: the scanner accepts no other. -/
def parseValue : ℕ → ℕ → List Char → Option (Json × List Char)
  | 0, _, _ => none
  | fuel + 1, depth, cs =>
    match skipSpace cs with
    | 'n' :: 'u' :: 'l' :: 'l' :: rest => some (.null, rest)
    | 't' :: 'r' :: 'u' :: 'e' :: rest => some (.bool true, rest)
    | 'f' :: 'a' :: 'l' :: 's' :: 'e' :: rest => some (.bool false, rest)
    | '"' :: rest => (parseStringBody rest).map fun p => (.str (String.ofList p.1), p.2)
    | '[' :: rest =>
      if depth = 0 then none
      else
        match skipSpace rest with
        | ']' :: rest => some (.arr [], rest)
        | _ => do
          let (j, rest) ← parseValue fuel (depth - 1) rest
          let (js, rest) ← parseElemsTail fuel (depth - 1) rest
          return (.arr (j :: js), rest)
    | '{' :: rest =>
      if depth = 0 then none
      else
        match skipSpace rest with
        | '}' :: rest => some (.obj [], rest)
        | _ => do
          let (m, rest) ← parseMember fuel (depth - 1) rest
          let (ms, rest) ← parseMembersTail fuel (depth - 1) rest
          return (.obj (m :: ms), rest)
    | c :: rest =>
      if c = '-' ∨ c.isDigit then
        let lit := (c :: rest).takeWhile isNumberChar
        if (parseNumber (String.ofList lit)).isSome then
          some (.num (String.ofList lit), (c :: rest).dropWhile isNumberChar)
        else none
      else none
    | [] => none
termination_by structural fuel _ _ => fuel

/-- The elements of an array after the first, to the closing bracket. -/
def parseElemsTail : ℕ → ℕ → List Char → Option (List Json × List Char)
  | 0, _, _ => none
  | fuel + 1, depth, cs =>
    match skipSpace cs with
    | ']' :: rest => some ([], rest)
    | ',' :: rest => do
      let (j, rest) ← parseValue fuel depth rest
      let (js, rest) ← parseElemsTail fuel depth rest
      return (j :: js, rest)
    | _ => none
termination_by structural fuel _ _ => fuel

/-- One member of an object: a string key, a colon and a value. -/
def parseMember : ℕ → ℕ → List Char → Option ((String × Json) × List Char)
  | 0, _, _ => none
  | fuel + 1, depth, cs =>
    match skipSpace cs with
    | '"' :: rest => do
      let (k, rest) ← parseStringBody rest
      match skipSpace rest with
      | ':' :: rest => do
        let (v, rest) ← parseValue fuel depth rest
        return ((String.ofList k, v), rest)
      | _ => none
    | _ => none
termination_by structural fuel _ _ => fuel

/-- The members of an object after the first, to the closing brace. -/
def parseMembersTail : ℕ → ℕ → List Char → Option (List (String × Json) × List Char)
  | 0, _, _ => none
  | fuel + 1, depth, cs =>
    match skipSpace cs with
    | '}' :: rest => some ([], rest)
    | ',' :: rest => do
      let (m, rest) ← parseMember fuel depth rest
      let (ms, rest) ← parseMembersTail fuel depth rest
      return (m :: ms, rest)
    | _ => none
termination_by structural fuel _ _ => fuel

end

/-- `json.Unmarshal`'s reading of a whole text: one value, with only
    whitespace around it.  Each call of the parser reads at least one
    character, so the length of the text is fuel enough. -/
def parseText (cs : List Char) : Option Json :=
  match parseValue (cs.length + 1) maxNestingDepth cs with
  | some (j, rest) => if (skipSpace rest).isEmpty then some j else none
  | none => none

/-- The `interface{}` value `json.Unmarshal` decodes a JSON value to:
    `nil` for `null`, otherwise the value as `Json.goValue` prints it. -/
def decodeInterface : Json → Option Json
  | .null => none
  | j => some j.goValue

/-- The scanner's `SyntaxError`; the character and offset its text names
    are not modelled. -/
def errSyntax : String := "invalid character"

/-- `json.Unmarshal` of bytes into an `interface{}`: the text is scanned
    whole, then decoded, a number past the `float64` range failing the
    decoding.  Bytes that are not UTF-8 are read as a syntax error. -/
def unmarshalInterface (b : ByteArray) : Except String (Option Json) :=
  match b.utf8Decode? with
  | none => .error errSyntax
  | some cs =>
    match parseText cs.toList with
    | none => .error errSyntax
    | some j =>
      match j.badNumber? with
      | some lit => .error (numberError lit)
      | none => .ok (decodeInterface j)

/-! ## String literals -/

theorem hexVal_digitChar : ∀ d < 16, hexVal (Nat.digitChar d) = some d := by
  decide

/-- The escape `\u00XX` of a character below `0x100` reads back as its code. -/
theorem getu4_escape (c : Char) (h : c.toNat < 0x100) :
    getu4 '0' '0' (Nat.digitChar (c.toNat / 16)) (Nat.digitChar (c.toNat % 16)) = some c.toNat := by
  have hhi := hexVal_digitChar (c.toNat / 16) (by omega)
  have hlo := hexVal_digitChar (c.toNat % 16) (by omega)
  simp only [getu4, hhi, hlo]
  simp [hexVal]
  omega

/-- An escape `\uXXXX` of a code outside the surrogates stands for its
    character. -/
theorem parseStringBody_unicode {a b c d : Char} {r : ℕ} (hr : getu4 a b c d = some r)
    (hs : isSurrogate r = false) (rest : List Char) :
    parseStringBody ('\\' :: 'u' :: a :: b :: c :: d :: rest) =
      (parseStringBody rest).map fun p => (Char.ofNat r :: p.1, p.2) := by
  simp [parseStringBody, unquoteRest, hr, hs]

/-- A character other than the quote, the backslash and the control
    characters stands for itself. -/
theorem parseStringBody_plain {c : Char} (hq : c ≠ '"') (hb : c ≠ '\\') (hc : 0x20 ≤ c.toNat)
    (rest : List Char) :
    parseStringBody (c :: rest) = (parseStringBody rest).map fun p => (c :: p.1, p.2) := by
  unfold parseStringBody
  rw [unquoteRest.eq_def]
  split
  · next heq => exact absurd (List.cons.inj heq).1 hb
  · simp only [flushSurrogate]
    split
    · next heq => exact absurd (List.cons.inj heq).1 hq
    · next heq => exact absurd (List.cons.inj heq).1 hb
    · next heq =>
      obtain ⟨rfl, rfl⟩ := List.cons.inj heq
      rw [if_neg (by omega)]
    · next heq => cases heq

/-- The closing quote ends the literal. -/
theorem parseStringBody_close (rest : List Char) : parseStringBody ('"' :: rest) = some ([], rest) := by
  unfold parseStringBody
  rw [unquoteRest.eq_def]
  split
  · next heq => cases (List.cons.inj heq).1
  · rfl

/-- A one-letter escape stands for its character. -/
theorem parseStringBody_simple {e c : Char} (he : e ≠ 'u') (hc : simpleEscape e = some c)
    (rest : List Char) :
    parseStringBody ('\\' :: e :: rest) = (parseStringBody rest).map fun p => (c :: p.1, p.2) := by
  unfold parseStringBody
  rw [unquoteRest.eq_def]
  split
  · next heq => exact absurd (List.cons.inj (List.cons.inj heq).2).1 he
  · simp only [flushSurrogate]
    split
    · next heq =>
      rw [hc] at heq
      cases heq
      rfl
    · next heq =>
      rw [hc] at heq
      cases heq

/-- A printed character reads back as itself, whatever follows it. -/
theorem parseStringBody_escapeChar (c : Char) (rest : List Char) :
    parseStringBody (escapeChar c ++ rest) = (parseStringBody rest).map fun p => (c :: p.1, p.2) := by
  unfold escapeChar
  split_ifs with h1 h2 h3 h4 h5 h6
  · rcases h1 with rfl | rfl <;> exact parseStringBody_simple (by decide) rfl rest
  · subst h2; exact parseStringBody_simple (by decide) rfl rest
  · subst h3; exact parseStringBody_simple (by decide) rfl rest
  · subst h4; exact parseStringBody_simple (by decide) rfl rest
  · -- `\u00XX`
    have hlt : c.toNat < 0x100 := by rcases h5 with h | rfl | rfl | rfl <;> first | omega | decide
    have hs : isSurrogate c.toNat = false := by simp [isSurrogate]; omega
    simp only [List.cons_append, List.nil_append]
    rw [parseStringBody_unicode (getu4_escape c hlt) hs, Char.ofNat_toNat]
  · -- `\u2028` and `\u2029`
    have hr : getu4 '2' '0' '2' (Nat.digitChar (c.toNat % 16)) = some c.toNat := by
      rcases h6 with rfl | rfl <;> decide
    have hs : isSurrogate c.toNat = false := by rcases h6 with rfl | rfl <;> decide
    simp only [List.cons_append, List.nil_append]
    rw [parseStringBody_unicode hr hs, Char.ofNat_toNat]
  · simp only [not_or] at h1 h5
    exact parseStringBody_plain h1.2 h1.1 (by omega) rest

/-! ## Number literals -/

/-- The text a number-literal part reads is made of number characters. -/
def NumberPrefix (cs cs' : List Char) : Prop :=
  ∃ pre, cs = pre ++ cs' ∧ ∀ x ∈ pre, isNumberChar x = true

theorem isNumberChar_of_isDigit {c : Char} (h : c.isDigit = true) : isNumberChar c = true := by
  simp [isNumberChar, h]

theorem numberPrefix_digits (cs : List Char) :
    NumberPrefix cs (cs.dropWhile Char.isDigit) :=
  ⟨cs.takeWhile Char.isDigit, (List.takeWhile_append_dropWhile).symm,
    fun _ hx => isNumberChar_of_isDigit (List.mem_takeWhile_imp hx)⟩

theorem NumberPrefix.cons {c : Char} {cs cs' : List Char} (hc : isNumberChar c = true)
    (h : NumberPrefix cs cs') : NumberPrefix (c :: cs) cs' := by
  obtain ⟨pre, rfl, hpre⟩ := h
  refine ⟨c :: pre, rfl, fun x hx => ?_⟩
  rcases List.mem_cons.mp hx with rfl | hx
  · exact hc
  · exact hpre x hx

theorem NumberPrefix.trans {cs₁ cs₂ cs₃ : List Char} (h₁ : NumberPrefix cs₁ cs₂)
    (h₂ : NumberPrefix cs₂ cs₃) : NumberPrefix cs₁ cs₃ := by
  obtain ⟨p₁, rfl, hp₁⟩ := h₁
  obtain ⟨p₂, rfl, hp₂⟩ := h₂
  refine ⟨p₁ ++ p₂, (List.append_assoc _ _ _).symm, fun x hx => ?_⟩
  rcases List.mem_append.mp hx with hx | hx
  · exact hp₁ x hx
  · exact hp₂ x hx

theorem intPart?_numberPrefix {cs ip cs' : List Char} (h : intPart? cs = some (ip, cs')) :
    ∃ c rest, cs = c :: rest ∧ c.isDigit = true ∧ NumberPrefix rest cs' := by
  unfold intPart? at h
  split at h
  · cases h
    exact ⟨'0', cs', rfl, rfl, [], rfl, by simp⟩
  · rename_i c cs _
    split at h
    · rename_i hc
      cases h
      exact ⟨c, cs, rfl, hc, numberPrefix_digits cs⟩
    · cases h
  · cases h

theorem fracPart?_numberPrefix {cs fp cs' : List Char} (h : fracPart? cs = some (fp, cs')) :
    NumberPrefix cs cs' := by
  unfold fracPart? at h
  split at h
  · rename_i cs
    dsimp only at h
    split at h
    · cases h
    · cases h
      exact (numberPrefix_digits cs).cons rfl
  · cases h
    exact ⟨[], rfl, by simp⟩

theorem expPart?_numberPrefix {cs : List Char} {ex : ℤ} {cs' : List Char}
    (h : expPart? cs = some (ex, cs')) : NumberPrefix cs cs' := by
  unfold expPart? at h
  split at h
  · rename_i c cs
    split at h
    · rename_i hc
      have hce : isNumberChar c = true := by rcases hc with rfl | rfl <;> rfl
      refine NumberPrefix.cons hce ?_
      dsimp only at h
      -- the sign, if there is one, then the digits
      split at h
      all_goals
        simp only at h
        split at h
        · cases h
      · obtain ⟨-, rfl⟩ := Prod.mk.inj (Option.some.inj h)
        exact (numberPrefix_digits _).cons rfl
      · obtain ⟨-, rfl⟩ := Prod.mk.inj (Option.some.inj h)
        exact (numberPrefix_digits _).cons rfl
      · obtain ⟨-, rfl⟩ := Prod.mk.inj (Option.some.inj h)
        exact numberPrefix_digits _
    · cases h
      exact ⟨[], rfl, by simp⟩
  · cases h
    exact ⟨[], rfl, by simp⟩

/-- The body of a literal after its sign: the three parts, and nothing after them. -/
theorem numberBody_chars {cs : List Char} {ip r1 fp r2 r3 : List Char} {ex : ℤ}
    (h1 : intPart? cs = some (ip, r1)) (h2 : fracPart? r1 = some (fp, r2))
    (h3 : expPart? r2 = some (ex, r3)) :
    ∃ c rest, cs = c :: rest ∧ c.isDigit = true ∧ NumberPrefix rest r3 := by
  obtain ⟨c, rest, rfl, hc, hp⟩ := intPart?_numberPrefix h1
  exact ⟨c, rest, rfl, hc, (hp.trans (fracPart?_numberPrefix h2)).trans (expPart?_numberPrefix h3)⟩

theorem parseNumber_chars {lit : String} (h : (parseNumber lit).isSome) :
    ∃ c cs, lit.toList = c :: cs ∧ (c = '-' ∨ c.isDigit = true) ∧
      ∀ x ∈ lit.toList, isNumberChar x = true := by
  obtain ⟨v, hv⟩ := Option.isSome_iff_exists.mp h
  unfold parseNumber at hv
  split at hv
  rename_i _ neg cs heq
  obtain ⟨⟨ip, r1⟩, h1, hv⟩ := Option.bind_eq_some_iff.mp hv
  obtain ⟨⟨fp, r2⟩, h2, hv⟩ := Option.bind_eq_some_iff.mp hv
  obtain ⟨⟨ex, r3⟩, h3, hv⟩ := Option.bind_eq_some_iff.mp hv
  -- nothing follows the parts
  have hr3 : r3 = [] := by
    simp only at hv
    split at hv
    · rename_i he
      exact List.isEmpty_iff.mp he
    · cases hv
  subst hr3
  obtain ⟨c, rest, rfl, hc, pre, hpre, hchars⟩ := numberBody_chars h1 h2 h3
  rw [List.append_nil] at hpre
  subst hpre
  have hbody : ∀ x ∈ c :: rest, isNumberChar x = true := by
    intro x hx
    rcases List.mem_cons.mp hx with rfl | hx
    · exact isNumberChar_of_isDigit hc
    · exact hchars x hx
  split at heq
  · rename_i cs' hlit
    obtain ⟨-, rfl⟩ := Prod.mk.inj heq
    refine ⟨'-', c :: rest, hlit, .inl rfl, ?_⟩
    rw [hlit]
    intro x hx
    rcases List.mem_cons.mp hx with rfl | hx
    · rfl
    · exact hbody x hx
  · obtain ⟨-, hlit⟩ := Prod.mk.inj heq
    exact ⟨c, rest, hlit, .inr hc, hlit ▸ hbody⟩

theorem skipSpace_cons {c : Char} (hc : isSpace c = false) (rest : List Char) :
    skipSpace (c :: rest) = c :: rest := by
  simp [skipSpace, hc]

/-- The characters a number starts with begin no other value. -/
theorem number_start_ne {c : Char} (hc : c = '-' ∨ c.isDigit = true) :
    isSpace c = false ∧ c ≠ 'n' ∧ c ≠ 't' ∧ c ≠ 'f' ∧ c ≠ '"' ∧ c ≠ '[' ∧ c ≠ '{' := by
  rcases hc with rfl | hc
  · decide
  · have hne : ∀ d : Char, d.isDigit = false → c ≠ d := by
      rintro d hd rfl
      rw [hc] at hd
      cases hd
    refine ⟨?_, hne 'n' rfl, hne 't' rfl, hne 'f' rfl, hne '"' rfl, hne '[' rfl, hne '{' rfl⟩
    simp [isSpace, hne ' ' rfl, hne '\t' rfl, hne '\n' rfl, hne '\r' rfl]

theorem parseValue_numberStart {c : Char} {rest : List Char} (hc : c = '-' ∨ c.isDigit = true)
    (fuel depth : ℕ) :
    parseValue (fuel + 1) depth (c :: rest) =
      if (parseNumber (String.ofList ((c :: rest).takeWhile isNumberChar))).isSome then
        some (.num (String.ofList ((c :: rest).takeWhile isNumberChar)),
          (c :: rest).dropWhile isNumberChar)
      else none := by
  obtain ⟨hsp, hn, ht, hf, hq, hb, hbr⟩ := number_start_ne hc
  rw [parseValue, skipSpace_cons hsp]
  split
  · next heq => exact absurd (List.cons.inj heq).1 hn
  · next heq => exact absurd (List.cons.inj heq).1 ht
  · next heq => exact absurd (List.cons.inj heq).1 hf
  · next heq => exact absurd (List.cons.inj heq).1 hq
  · next heq => exact absurd (List.cons.inj heq).1 hb
  · next heq => exact absurd (List.cons.inj heq).1 hbr
  · next heq =>
    obtain ⟨rfl, rfl⟩ := List.cons.inj heq
    rw [if_pos hc]
  · next heq => cases heq

/-- What may follow a number in a printed text: nothing, or a character
    that cannot continue it. -/
def NumberEnd (r : List Char) : Prop := ∀ c r', r = c :: r' → isNumberChar c = false

/-- A literal of the grammar, followed by what cannot continue it, reads
    back as that literal. -/
theorem parseValue_number {lit : String} (h : (parseNumber lit).isSome) {r : List Char}
    (hr : NumberEnd r) (fuel depth : ℕ) :
    parseValue (fuel + 1) depth (lit.toList ++ r) = some (.num lit, r) := by
  obtain ⟨c, cs, hlit, hc, hchars⟩ := parseNumber_chars h
  obtain ⟨htake, hdrop⟩ := scan_append hchars hr
  rw [hlit, List.cons_append] at htake hdrop
  rw [hlit, List.cons_append, parseValue_numberStart hc, htake, hdrop, ← hlit,
    String.ofList_toList, if_pos h]

/-! ## Reading printed text back -/

/-- A printed string reads back, with what follows its closing quote. -/
theorem parseStringBody_quote (cs : List Char) (rest : List Char) :
    parseStringBody (cs.flatMap escapeChar ++ '"' :: rest) = some (cs, rest) := by
  induction cs with
  | nil => exact parseStringBody_close rest
  | cons c cs ih =>
    rw [List.flatMap_cons, List.append_assoc, parseStringBody_escapeChar, ih]
    rfl

theorem parseValue_quote (s : String) (rest : List Char) (fuel depth : ℕ) :
    parseValue (fuel + 1) depth (quoteJson s ++ rest) = some (.str s, rest) := by
  simp [quoteJson, parseValue, skipSpace, isSpace, parseStringBody_quote]

/-- A member whose key is printed is read as its value is. -/
theorem parseMember_quote (k : String) (fuel depth : ℕ) (cs : List Char) :
    parseMember (fuel + 1) depth (quoteJson k ++ ':' :: cs) = do
      let (v, rest) ← parseValue fuel depth cs
      return ((k, v), rest) := by
  simp [quoteJson, parseMember, skipSpace, isSpace, parseStringBody_quote]

/-- Every printed value starts with a character that is neither whitespace
    nor a closing bracket. -/
theorem marshal_head (j : Json) (hj : ∀ lit ∈ j.numbers, (parseNumber lit).isSome = true) :
    ∃ c cs, j.marshal = c :: cs ∧ isSpace c = false ∧ c ≠ ']' ∧ c ≠ '}' := by
  cases j with
  | num lit =>
    obtain ⟨c, cs, hlit, hc, -⟩ := parseNumber_chars (hj lit (by simp [Json.numbers]))
    obtain ⟨hsp, -⟩ := number_start_ne hc
    refine ⟨c, cs, hlit, hsp, ?_, ?_⟩ <;> rintro rfl <;> rcases hc with hc | hc <;> cases hc
  | null => exact ⟨_, _, rfl, rfl, by decide, by decide⟩
  | bool b => cases b <;> exact ⟨_, _, rfl, rfl, by decide, by decide⟩
  | str s => exact ⟨_, _, rfl, rfl, by decide, by decide⟩
  | arr es => cases es <;> exact ⟨_, _, rfl, rfl, by decide, by decide⟩
  | obj ms => rcases ms with _ | ⟨⟨k, v⟩, ms⟩ <;> exact ⟨_, _, rfl, rfl, by decide, by decide⟩

/-- An array opened past the nesting allowed fails. -/
theorem parseValue_arr_zero (fuel : ℕ) (rest : List Char) :
    parseValue (fuel + 1) 0 ('[' :: rest) = none :=
  rfl

theorem parseValue_obj_zero (fuel : ℕ) (rest : List Char) :
    parseValue (fuel + 1) 0 ('{' :: rest) = none :=
  rfl

/-- An array with a first element: the element, then the rest, one level
    deeper. -/
theorem parseValue_arr_cons {fuel depth : ℕ} {rest : List Char}
    (hne : ∀ r', skipSpace rest ≠ ']' :: r') :
    parseValue (fuel + 1) (depth + 1) ('[' :: rest) = do
      let (j, r1) ← parseValue fuel depth rest
      let (js, r2) ← parseElemsTail fuel depth r1
      return (.arr (j :: js), r2) := by
  -- the match takes the element branch by `hne`
  rw [parseValue, skipSpace_cons (by decide)]
  simp only [Nat.add_one_ne_zero, if_false, Nat.add_sub_cancel]

theorem parseValue_arr_nil {fuel depth : ℕ} (r : List Char) :
    parseValue (fuel + 1) (depth + 1) ('[' :: ']' :: r) = some (.arr [], r) :=
  rfl

/-- An object with a first member: the member, then the rest, one level
    deeper. -/
theorem parseValue_obj_cons {fuel depth : ℕ} {rest : List Char}
    (hne : ∀ r', skipSpace rest ≠ '}' :: r') :
    parseValue (fuel + 1) (depth + 1) ('{' :: rest) = do
      let (m, r1) ← parseMember fuel depth rest
      let (ms, r2) ← parseMembersTail fuel depth r1
      return (.obj (m :: ms), r2) := by
  -- the match takes the member branch by `hne`
  rw [parseValue, skipSpace_cons (by decide)]
  simp only [Nat.add_one_ne_zero, if_false, Nat.add_sub_cancel]

theorem parseValue_obj_nil {fuel depth : ℕ} (r : List Char) :
    parseValue (fuel + 1) (depth + 1) ('{' :: '}' :: r) = some (.obj [], r) :=
  rfl

theorem parseElemsTail_nil (fuel depth : ℕ) (r : List Char) :
    parseElemsTail (fuel + 1) depth (']' :: r) = some ([], r) :=
  rfl

theorem parseElemsTail_comma (fuel depth : ℕ) (rest : List Char) :
    parseElemsTail (fuel + 1) depth (',' :: rest) = do
      let (j, r1) ← parseValue fuel depth rest
      let (js, r2) ← parseElemsTail fuel depth r1
      return (j :: js, r2) :=
  rfl

theorem parseMembersTail_nil (fuel depth : ℕ) (r : List Char) :
    parseMembersTail (fuel + 1) depth ('}' :: r) = some ([], r) :=
  rfl

theorem parseMembersTail_comma (fuel depth : ℕ) (rest : List Char) :
    parseMembersTail (fuel + 1) depth (',' :: rest) = do
      let (m, r1) ← parseMember fuel depth rest
      let (ms, r2) ← parseMembersTail fuel depth r1
      return (m :: ms, r2) :=
  rfl

theorem numberEnd_elemsTail (js : List Json) (r : List Char) :
    NumberEnd (marshalElemsTail js ++ r) := by
  cases js <;> simp [NumberEnd, marshalElemsTail, isNumberChar]

theorem numberEnd_membersTail (ms : List (String × Json)) (r : List Char) :
    NumberEnd (marshalMembersTail ms ++ r) := by
  rcases ms with _ | ⟨⟨k, v⟩, ms⟩ <;> simp [NumberEnd, marshalMembersTail, isNumberChar]

/-- No printed value starts with a closing bracket or brace, even after
    whitespace. -/
theorem skipSpace_marshal {j : Json} (hj : ∀ lit ∈ j.numbers, (parseNumber lit).isSome = true)
    (r : List Char) :
    (∀ r', skipSpace (j.marshal ++ r) ≠ ']' :: r') ∧ (∀ r', skipSpace (j.marshal ++ r) ≠ '}' :: r') := by
  obtain ⟨c, cs, hm, hsp, hb, hbr⟩ := marshal_head j hj
  rw [hm, List.cons_append, skipSpace_cons hsp]
  exact ⟨fun r' h => hb (List.cons.inj h).1, fun r' h => hbr (List.cons.inj h).1⟩

mutual

/-- The printed text of a value, with enough fuel, reads back as the value
    when it nests no deeper than allowed, and fails otherwise, whatever may
    follow it. -/
theorem parseValue_marshal : ∀ (j : Json) (fuel depth : ℕ) (r : List Char),
    j.marshal.length ≤ fuel → (∀ lit ∈ j.numbers, (parseNumber lit).isSome = true) →
    NumberEnd r → parseValue fuel depth (j.marshal ++ r) = if j.depth ≤ depth then some (j, r) else none
  | .null, 0, _, _, hf, _, _ => by simp [Json.marshal] at hf
  | .null, fuel + 1, depth, r, _, _, _ => by simp [Json.marshal, Json.depth, parseValue, skipSpace, isSpace]
  | .bool b, 0, _, _, hf, _, _ => by cases b <;> simp [Json.marshal] at hf
  | .bool b, fuel + 1, depth, r, _, _, _ => by
    cases b <;> simp [Json.marshal, Json.depth, parseValue, skipSpace, isSpace]
  | .num lit, fuel, depth, r, hf, hn, hr => by
    have hlit := hn lit (by simp [Json.numbers])
    obtain ⟨c, cs, hcs, -⟩ := parseNumber_chars hlit
    obtain ⟨f, rfl⟩ : ∃ f, fuel = f + 1 := ⟨fuel - 1, by simp [Json.marshal, hcs] at hf; omega⟩
    simpa [Json.marshal, Json.depth] using parseValue_number hlit hr f depth
  | .str s, 0, _, _, hf, _, _ => by simp [Json.marshal, quoteJson] at hf
  | .str s, fuel + 1, depth, r, _, _, _ => by
    simpa [Json.marshal, Json.depth] using parseValue_quote s r fuel depth
  | .arr [], 0, _, _, hf, _, _ => by simp [Json.marshal] at hf
  | .arr [], fuel + 1, 0, r, _, _, _ => by
    simpa [Json.marshal, Json.depth, elemsDepth] using parseValue_arr_zero fuel (']' :: r)
  | .arr [], fuel + 1, depth + 1, r, _, _, _ => by
    simpa [Json.marshal, Json.depth, elemsDepth] using @parseValue_arr_nil fuel depth r
  | .arr (j :: js), 0, _, _, hf, _, _ => by simp [Json.marshal] at hf
  | .arr (j :: js), fuel + 1, 0, r, _, _, _ => by
    simp only [Json.marshal, List.cons_append, parseValue_arr_zero, Json.depth]
    simp
  | .arr (j :: js), fuel + 1, depth + 1, r, hf, hn, _ => by
    simp only [Json.marshal, List.length_cons, List.length_append] at hf
    simp only [Json.numbers, elemsNumbers, List.mem_append] at hn
    have hj : ∀ lit ∈ j.numbers, (parseNumber lit).isSome = true := fun lit h => hn lit (.inl h)
    have h1 := parseValue_marshal j fuel depth (marshalElemsTail js ++ r) (by omega) hj
      (numberEnd_elemsTail js r)
    have h2 := parseElemsTail_marshal js fuel depth r (by omega) fun lit h => hn lit (.inr h)
    simp only [Json.marshal, List.cons_append, List.append_assoc]
    rw [parseValue_arr_cons (skipSpace_marshal hj _).1, h1]
    -- the array reads back exactly when its first element and the rest do
    by_cases hd₁ : j.depth ≤ depth <;> by_cases hd₂ : elemsDepth js ≤ depth <;>
      simp [h2, hd₁, hd₂, Json.depth, elemsDepth]
  | .obj [], 0, _, _, hf, _, _ => by simp [Json.marshal] at hf
  | .obj [], fuel + 1, 0, r, _, _, _ => by
    simpa [Json.marshal, Json.depth, membersDepth] using parseValue_obj_zero fuel ('}' :: r)
  | .obj [], fuel + 1, depth + 1, r, _, _, _ => by
    simpa [Json.marshal, Json.depth, membersDepth] using @parseValue_obj_nil fuel depth r
  | .obj ((k, v) :: ms), 0, _, _, hf, _, _ => by simp [Json.marshal] at hf
  | .obj ((k, v) :: ms), fuel + 1, 0, r, _, _, _ => by
    simp only [Json.marshal, List.cons_append, parseValue_obj_zero, Json.depth]
    simp
  | .obj ((k, v) :: ms), fuel + 1, depth + 1, r, hf, hn, _ => by
    simp only [Json.marshal, quoteJson, List.length_cons, List.length_append] at hf
    simp only [Json.numbers, membersNumbers, List.mem_append] at hn
    obtain ⟨f, rfl⟩ : ∃ f, fuel = f + 1 := ⟨fuel - 1, by omega⟩
    have hv := parseValue_marshal v f depth (marshalMembersTail ms ++ r) (by omega)
      (fun lit h => hn lit (.inl h)) (numberEnd_membersTail ms r)
    have h2 := parseMembersTail_marshal ms (f + 1) depth r (by omega) fun lit h => hn lit (.inr h)
    have hne : ∀ r', skipSpace (quoteJson k ++ ':' :: (v.marshal ++ (marshalMembersTail ms ++ r))) ≠
        '}' :: r' := by
      intro r' h
      simp [quoteJson, skipSpace, isSpace] at h
    simp only [Json.marshal, List.cons_append, List.append_assoc]
    rw [parseValue_obj_cons hne, parseMember_quote, hv]
    -- the object reads back exactly when its first value and the rest do
    by_cases hd₁ : v.depth ≤ depth <;> by_cases hd₂ : membersDepth ms ≤ depth <;>
      simp [h2, hd₁, hd₂, Json.depth, membersDepth]

/-- The printed elements of an array after the first read back when they
    nest no deeper than allowed. -/
theorem parseElemsTail_marshal : ∀ (js : List Json) (fuel depth : ℕ) (r : List Char),
    (marshalElemsTail js).length ≤ fuel → (∀ lit ∈ elemsNumbers js, (parseNumber lit).isSome = true) →
    parseElemsTail fuel depth (marshalElemsTail js ++ r) =
      if elemsDepth js ≤ depth then some (js, r) else none
  | [], 0, _, _, hf, _ => by simp [marshalElemsTail] at hf
  | [], fuel + 1, depth, r, _, _ => by
    simpa [marshalElemsTail, elemsDepth] using parseElemsTail_nil fuel depth r
  | j :: js, 0, _, _, hf, _ => by simp [marshalElemsTail] at hf
  | j :: js, fuel + 1, depth, r, hf, hn => by
    simp only [marshalElemsTail, List.length_cons, List.length_append] at hf
    simp only [elemsNumbers, List.mem_append] at hn
    have h1 := parseValue_marshal j fuel depth (marshalElemsTail js ++ r) (by omega)
      (fun lit h => hn lit (.inl h)) (numberEnd_elemsTail js r)
    have h2 := parseElemsTail_marshal js fuel depth r (by omega) fun lit h => hn lit (.inr h)
    simp only [marshalElemsTail, List.cons_append, List.append_assoc]
    rw [parseElemsTail_comma, h1]
    by_cases hd₁ : j.depth ≤ depth <;> by_cases hd₂ : elemsDepth js ≤ depth <;>
      simp [h2, hd₁, hd₂, elemsDepth]

/-- The printed members of an object after the first read back when they
    nest no deeper than allowed. -/
theorem parseMembersTail_marshal : ∀ (ms : List (String × Json)) (fuel depth : ℕ) (r : List Char),
    (marshalMembersTail ms).length ≤ fuel →
    (∀ lit ∈ membersNumbers ms, (parseNumber lit).isSome = true) →
    parseMembersTail fuel depth (marshalMembersTail ms ++ r) =
      if membersDepth ms ≤ depth then some (ms, r) else none
  | [], 0, _, _, hf, _ => by simp [marshalMembersTail] at hf
  | [], fuel + 1, depth, r, _, _ => by
    simpa [marshalMembersTail, membersDepth] using parseMembersTail_nil fuel depth r
  | (k, v) :: ms, 0, _, _, hf, _ => by simp [marshalMembersTail] at hf
  | (k, v) :: ms, fuel + 1, depth, r, hf, hn => by
    simp only [marshalMembersTail, quoteJson, List.length_cons, List.length_append] at hf
    simp only [membersNumbers, List.mem_append] at hn
    obtain ⟨f, rfl⟩ : ∃ f, fuel = f + 1 := ⟨fuel - 1, by omega⟩
    have hv := parseValue_marshal v f depth (marshalMembersTail ms ++ r) (by omega)
      (fun lit h => hn lit (.inl h)) (numberEnd_membersTail ms r)
    have h2 := parseMembersTail_marshal ms (f + 1) depth r (by omega) fun lit h => hn lit (.inr h)
    simp only [marshalMembersTail, List.cons_append, List.append_assoc]
    rw [parseMembersTail_comma, parseMember_quote, hv]
    by_cases hd₁ : v.depth ≤ depth <;> by_cases hd₂ : membersDepth ms ≤ depth <;>
      simp [h2, hd₁, hd₂, membersDepth]

end

/-- A whole printed text reads back as its value if it nests at most
    `maxNestingDepth` deep, and is rejected otherwise. -/
theorem parseText_marshal {j : Json} (hn : ∀ lit ∈ j.numbers, (parseNumber lit).isSome = true) :
    parseText j.marshal = if j.depth ≤ maxNestingDepth then some j else none := by
  have h := parseValue_marshal j (j.marshal.length + 1) maxNestingDepth [] (by omega) hn
    (by simp [NumberEnd])
  rw [List.append_nil] at h
  by_cases hd : j.depth ≤ maxNestingDepth <;> simp [parseText, h, hd, skipSpace]

theorem parseNumber_isSome_of_parseFloat {lit : String} (h : (parseFloat lit).isSome = true) :
    (parseNumber lit).isSome = true := by
  cases hp : parseNumber lit with
  | none => simp [parseFloat, hp] at h
  | some _ => rfl

mutual

/-- A value whose numbers all decode to a `float64` has only literals of the
    grammar. -/
theorem numbers_valid_of_badNumber : ∀ j : Json, j.badNumber? = none →
    ∀ lit ∈ j.numbers, (parseNumber lit).isSome = true
  | .num lit, h => by
    have hf : (parseFloat lit).isSome = true := by
      cases hp : parseFloat lit <;> simp_all [Json.badNumber?]
    simpa [Json.numbers] using parseNumber_isSome_of_parseFloat hf
  | .arr es, h => elems_valid_of_badNumbers es h
  | .obj ms, h => members_valid_of_badMembers ms h
  | .null, _ | .bool _, _ | .str _, _ => by simp [Json.numbers]

theorem elems_valid_of_badNumbers : ∀ js : List Json, badNumbers? js = none →
    ∀ lit ∈ elemsNumbers js, (parseNumber lit).isSome = true
  | [], _ => by simp [elemsNumbers]
  | j :: js, h => by
    simp only [badNumbers?, Option.or_eq_none_iff] at h
    simp only [elemsNumbers, List.mem_append]
    rintro lit (hl | hl)
    · exact numbers_valid_of_badNumber j h.1 lit hl
    · exact elems_valid_of_badNumbers js h.2 lit hl

theorem members_valid_of_badMembers : ∀ ms : List (String × Json), badMembers? ms = none →
    ∀ lit ∈ membersNumbers ms, (parseNumber lit).isSome = true
  | [], _ => by simp [membersNumbers]
  | (_, v) :: ms, h => by
    simp only [badMembers?, Option.or_eq_none_iff] at h
    simp only [membersNumbers, List.mem_append]
    rintro lit (hl | hl)
    · exact numbers_valid_of_badNumber v h.1 lit hl
    · exact members_valid_of_badMembers ms h.2 lit hl

end

/-- `json.Unmarshal` into an `interface{}` of the bytes `json.Marshal`
    printed for a value whose numbers are literals of the grammar: a value
    nested deeper than `maxNestingDepth` is a syntax error, a number past the
    `float64` range a decoding error, and otherwise the result is the value's
    `interface{}` decoding. -/
theorem unmarshalInterface_marshal {j : Json}
    (hn : ∀ lit ∈ j.numbers, (parseNumber lit).isSome = true) :
    unmarshalInterface (String.ofList j.marshal).toUTF8 =
      if j.depth ≤ maxNestingDepth then
        match j.badNumber? with
        | some lit => .error (numberError lit)
        | none => .ok (decodeInterface j)
      else .error errSyntax := by
  have ht := parseText_marshal hn
  by_cases hd : j.depth ≤ maxNestingDepth <;>
    simp [unmarshalInterface, String.toUTF8_eq_toByteArray, String.toByteArray_ofList,
      List.utf8Decode?_utf8Encode, ht, hd]

/-- The bytes printed for a value whose numbers are in the `float64` range,
    nested at most `maxNestingDepth` deep, read back as its decoding. -/
theorem unmarshalInterface_marshal_ok {j : Json} (hb : j.badNumber? = none)
    (hd : j.depth ≤ maxNestingDepth) :
    unmarshalInterface (String.ofList j.marshal).toUTF8 = .ok (decodeInterface j) := by
  rw [unmarshalInterface_marshal (numbers_valid_of_badNumber j hb)]
  simp [hd, hb]

example : (unmarshalInterface "[1.50, \"\\ud83d\\ude00\\ud800\"]".toUTF8).map
    (Option.map Json.render) = .ok (some "[1.5,\"😀\uFFFD\"]") := by
  decide +kernel

example : (unmarshalInterface " [1e400] ".toUTF8).map (Option.map Json.render) =
    .error (numberError "1e400") := by
  decide +kernel

end Proxyd.Go
