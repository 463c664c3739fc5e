import Mathlib

/-
  Proxyd.Go.Float

  The `float64` of a JSON number, as Go's `encoding/json` decodes a number
  into `interface{}` and prints it again:

    * `parseFloat`: `strconv.ParseFloat(s, 64)` on a JSON number literal, the
      decimal value rounded to the nearest `float64`, ties to even, with a
      range error past the largest finite value;
    * `formatFloat`: the `float64` encoder, which prints the shortest decimal
      that reads back as the same `float64` (the nearest of those), in `%f`
      notation from `1e-6` up to `1e21` and in `%e` notation outside, a
      one-digit negative exponent unpadded.

  Values are computed on natural numbers: a positive magnitude is a ratio
  `a / b` and every rounding a division with remainder, so the functions
  run in the kernel.
-/

namespace Proxyd.Go

/-- A finite `float64`: the sign, the biased exponent and the 52 bits of
    fraction.  The biased exponent `2047` of the infinities and NaNs is left
    out: no JSON number decodes to one. -/
structure Float64 where
  neg : Bool
  bexp : Fin 2047
  frac : Fin (2 ^ 52)
  deriving DecidableEq, Repr

namespace Float64

/-- The integer significand, with the hidden bit of a normal number. -/
def mant (f : Float64) : ℕ := if f.bexp.val = 0 then f.frac.val else 2 ^ 52 + f.frac.val

/-- The power of two the significand is scaled by. -/
def exp (f : Float64) : ℤ := if f.bexp.val = 0 then -1074 else (f.bexp.val : ℤ) - 1075

/-- `±0`. -/
def zero (neg : Bool) : Float64 := ⟨neg, 0, 0⟩

/-- `math.Abs`. -/
def abs (f : Float64) : Float64 := { f with neg := false }

/-- The magnitude `mant · 2^exp` as a ratio of naturals. -/
def ratio (f : Float64) : ℕ × ℕ := (f.mant * 2 ^ f.exp.toNat, 2 ^ (-f.exp).toNat)

/-- `|f| < |g|`: magnitudes are ordered as the biased exponent, then the
    fraction. -/
def ltAbs (f g : Float64) : Bool := f.bexp < g.bexp || (f.bexp = g.bexp && f.frac < g.frac)

end Float64

/-! ## Rounding -/

/-- `base ^ t ≤ a / b`. -/
def powLe (base : ℕ) (t : ℤ) (a b : ℕ) : Bool :=
  if 0 ≤ t then b * base ^ t.toNat ≤ a else b ≤ a * base ^ (-t).toNat

/-- `⌊log_base (a / b)⌋` for positive `a` and `b`: the logarithms of the
    two parts give it up to one. -/
def floorLogRatio (base a b : ℕ) : ℤ :=
  let t : ℤ := (Nat.log base a : ℤ) - Nat.log base b
  if powLe base t a b then t else t - 1

/-- `a / b` to the nearest integer, ties to even. -/
def roundHalfEven (a b : ℕ) : ℕ :=
  if 2 * (a % b) < b then a / b
  else if b < 2 * (a % b) then a / b + 1
  else if a / b % 2 = 0 then a / b else a / b + 1

/-- `a / b` scaled by `base ^ -e`, as a ratio. -/
def scaleRatio (base a b : ℕ) (e : ℤ) : ℕ × ℕ :=
  if 0 ≤ e then (a, b * base ^ e.toNat) else (a * base ^ (-e).toNat, b)

namespace Float64

/-- A significand `m < 2^53` at the exponent `e ≥ -1074` as the fields of a
    `float64`: without its hidden bit it is subnormal, and past the largest
    exponent the value overflows. -/
def packFields (neg : Bool) (m : ℕ) (e : ℤ) : Option Float64 :=
  if hm : m < 2 ^ 52 then some ⟨neg, 0, ⟨m, hm⟩⟩
  else if h : m < 2 ^ 53 ∧ e + 1075 < 2047 then
    some ⟨neg, ⟨(e + 1075).toNat, by omega⟩, ⟨m - 2 ^ 52, by omega⟩⟩
  else none

/-- A rounded significand `m ≤ 2^53` packed into a `float64`: a carry out
    of 53 bits moves to the next exponent. -/
def pack (neg : Bool) (m : ℕ) (e : ℤ) : Option Float64 :=
  if m = 2 ^ 53 then packFields neg (2 ^ 52) (e + 1) else packFields neg m e

/-- The `float64` nearest to `a / b` with the sign `neg`, ties to even;
    `none` when it rounds past the largest finite value. -/
def ofRatio (neg : Bool) (a b : ℕ) : Option Float64 :=
  if a = 0 then some (zero neg)
  else
    -- the exponent of the binade of `a / b`, or that of the subnormals below it
    let e := max (floorLogRatio 2 a b) (-1022) - 52
    let r := scaleRatio 2 a b e
    pack neg (roundHalfEven r.1 r.2) e

/-- The decimal `c · 10^k` with the sign `neg`, rounded to a `float64`. -/
def ofDecimal (neg : Bool) (c : ℕ) (k : ℤ) : Option Float64 :=
  if 0 ≤ k then ofRatio neg (c * 10 ^ k.toNat) 1 else ofRatio neg c (10 ^ (-k).toNat)

end Float64

/-! ## Parsing -/

/-- The value of a run of decimal digits. -/
def digitsValue (ds : List Char) : ℕ :=
  ds.foldl (fun n d => 10 * n + (d.toNat - '0'.toNat)) 0

/-- The integer part of a JSON number, `0` or a nonzero digit and more, and
    the text after it. -/
def intPart? : List Char → Option (List Char × List Char)
  | '0' :: cs => some (['0'], cs)
  | c :: cs => if c.isDigit then some (c :: cs.takeWhile Char.isDigit, cs.dropWhile Char.isDigit) else none
  | [] => none

/-- The digits of a fraction part `.ddd`, if there is one, and the text after it. -/
def fracPart? : List Char → Option (List Char × List Char)
  | '.' :: cs =>
    let ds := cs.takeWhile Char.isDigit
    if ds.isEmpty then none else some (ds, cs.dropWhile Char.isDigit)
  | cs => some ([], cs)

/-- The exponent of an exponent part `e±ddd`, if there is one, and the text
    after it. -/
def expPart? : List Char → Option (ℤ × List Char)
  | c :: cs =>
    if c = 'e' ∨ c = 'E' then
      let (neg, cs) := match cs with
        | '-' :: cs => (true, cs)
        | '+' :: cs => (false, cs)
        | cs => (false, cs)
      let ds := cs.takeWhile Char.isDigit
      if ds.isEmpty then none
      else some (if neg then -(digitsValue ds : ℤ) else digitsValue ds, cs.dropWhile Char.isDigit)
    else some (0, c :: cs)
  | [] => some (0, [])

/-- A JSON number literal as a sign and a decimal `c · 10^k`, `c` the digits
    of the integer and fraction parts together; `none` off the grammar
    `-? (0 | [1-9][0-9]*) (. [0-9]+)? ([eE] [+-]? [0-9]+)?`. -/
def parseNumber (s : String) : Option (Bool × ℕ × ℤ) := do
  let (neg, cs) := match s.toList with
    | '-' :: cs => (true, cs)
    | cs => (false, cs)
  let (ip, cs) ← intPart? cs
  let (fp, cs) ← fracPart? cs
  let (ex, cs) ← expPart? cs
  if cs.isEmpty then some (neg, digitsValue (ip ++ fp), ex - fp.length) else none

/-- `strconv.ParseFloat(s, 64)` on a JSON number literal. -/
def parseFloat (s : String) : Option Float64 := do
  let (neg, c, k) ← parseNumber s
  Float64.ofDecimal neg c k

/-! ## Printing -/

namespace Float64

/-- The `n`-digit decimals around the magnitude of `f`: the scale `10^k` of
    their last digit, and the two multiples of it on either side of the
    magnitude, the nearer (ties to even) first. -/
def candidates (f : Float64) (n : ℕ) : ℤ × ℕ × ℕ :=
  let k := floorLogRatio 10 f.ratio.1 f.ratio.2 + 1 - n
  let r := scaleRatio 10 f.ratio.1 f.ratio.2 k
  let near := roundHalfEven r.1 r.2
  (k, near, if near = r.1 / r.2 then r.1 / r.2 + 1 else r.1 / r.2)

/-- An `n`-digit decimal that reads back as `|f|`, the nearer first. -/
def digitsOf? (f : Float64) (n : ℕ) : Option (ℕ × ℤ) :=
  let (k, near, other) := f.candidates n
  if ofDecimal false near k = some f.abs then some (near, k)
  else if ofDecimal false other k = some f.abs then some (other, k)
  else none

/-- The shortest decimal `c · 10^k` that reads back as `|f|`, the nearest of
    those.  Seventeen digits always suffice, and then the nearest one does. -/
def shortest (f : Float64) : ℕ × ℤ :=
  ((List.range 16).findSome? fun i => f.digitsOf? (i + 1)).getD
    ((f.candidates 17).2.1, (f.candidates 17).1)

end Float64

/-- The digits of `c · 10^k` without trailing zeros, and the place of the
    decimal point: the value is `0.d₁d₂… · 10^dp`. -/
def decimalDigits (c : ℕ) (k : ℤ) : List Char × ℤ :=
  (((Nat.toDigits 10 c).reverse.dropWhile (· = '0')).reverse, (Nat.toDigits 10 c).length + k)

/-- `%e` with the shortest precision: `d.ddd`, then the exponent with its
    sign and at least two digits. -/
def fmtE (ds : List Char) (dp : ℤ) : List Char :=
  let exp := dp - 1
  let mantissa := match ds with
    | [] => ['0']
    | [d] => [d]
    | d :: rest => d :: '.' :: rest
  let expDigits := Nat.toDigits 10 exp.natAbs
  mantissa ++ ['e', if exp < 0 then '-' else '+'] ++
    (if exp.natAbs < 10 then '0' :: expDigits else expDigits)

/-- `%f` with the shortest precision: the integer part, padded with zeros,
    then the fraction digits if there are any. -/
def fmtF (ds : List Char) (dp : ℤ) : List Char :=
  let intPart := if 0 < dp then ds.take dp.toNat ++ List.replicate (dp.toNat - ds.length) '0' else ['0']
  let fracPart := List.replicate (-dp).toNat '0' ++ ds.drop dp.toNat
  if fracPart.isEmpty then intPart else intPart ++ '.' :: fracPart

/-- The encoder's clean-up of `e-0d` to `e-d`. -/
def cleanExp (cs : List Char) : List Char :=
  match cs.reverse with
  | d :: '0' :: '-' :: 'e' :: rest => (d :: '-' :: 'e' :: rest).reverse
  | _ => cs

/-- The `float64` constant `1e-6`. -/
def oneEMinus6 : Float64 := ⟨false, 1003, 0xC6F7A0B5ED8D⟩

/-- The `float64` constant `1e21`. -/
def oneE21 : Float64 := ⟨false, 1092, 0xB1AE4D6E2EF50⟩

/-- The text `json.Marshal` prints for a `float64`. -/
def formatFloat (f : Float64) : String :=
  let sign := if f.neg then ['-'] else []
  if f.mant = 0 then String.ofList (sign ++ ['0'])
  else
    let (ds, dp) := decimalDigits f.shortest.1 f.shortest.2
    if f.abs.ltAbs oneEMinus6 || !f.abs.ltAbs oneE21 then String.ofList (sign ++ cleanExp (fmtE ds dp))
    else String.ofList (sign ++ fmtF ds dp)

end Proxyd.Go
