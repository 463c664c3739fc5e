import Mathlib.Data.Nat.Digits.Defs
import Mathlib.Data.String.Basic
import Proxyd.Lib.Except

/-
  Proxyd.Eth.Hexutil

  The quantity encoding of go-ethereum's `hexutil` package: `EncodeUint64`
  (`hexutil.Uint64.String`) prints `0x` and the lowercase hex digits of the
  number, without leading zeros; `DecodeUint64` accepts exactly `0x` or `0X`
  followed by hex digits of either case, with no leading zero, and a value
  that fits in 64 bits.  Strings are taken as their list of characters: every
  character the decoder accepts is ASCII, so bytes and characters agree.

  The main fact is the round trip `decodeUint64_encodeUint64`.
-/

namespace Proxyd.Eth

open Proxyd.Lib

/-- The decoding errors of `hexutil`, by their texts. -/
def errEmptyString : String := "empty hex string"
def errSyntax : String := "invalid hex string"
def errMissingPrefix : String := "hex string without 0x prefix"
def errEmptyNumber : String := "hex string \"0x\""
def errLeadingZero : String := "hex number with leading zero digits"
def errUint64Range : String := "hex number > 64 bits"

/-- `EncodeUint64`: `0x` and the lowercase hex digits. -/
def encodeUint64 (n : UInt64) : String :=
  String.ofList ('0' :: 'x' :: Nat.toDigits 16 n.toNat)

/-- `checkNumber`: the digits after the prefix, rejecting an empty string, a
    missing prefix, no digits, and a leading zero. -/
def checkNumber : List Char → Except String (List Char)
  | [] => .error errEmptyString
  | '0' :: x :: rest =>
    if x = 'x' ∨ x = 'X' then
      match rest with
      | [] => .error errEmptyNumber
      | '0' :: _ :: _ => .error errLeadingZero
      | digits => .ok digits
    else .error errMissingPrefix
  | _ => .error errMissingPrefix

/-- The value of a hex digit of either case. -/
def hexDigitVal (c : Char) : Option Nat :=
  if '0' ≤ c ∧ c ≤ '9' then some (c.toNat - '0'.toNat)
  else if 'a' ≤ c ∧ c ≤ 'f' then some (c.toNat - 'a'.toNat + 10)
  else if 'A' ≤ c ∧ c ≤ 'F' then some (c.toNat - 'A'.toNat + 10)
  else none

/-- One digit of `strconv.ParseUint(s, 16, 64)`: a non-digit is a syntax
    error, a value past 64 bits a range error. -/
def parseStep (n : Nat) (c : Char) : Except String Nat :=
  match hexDigitVal c with
  | none => .error errSyntax
  | some d => if 16 * n + d < 2 ^ 64 then .ok (16 * n + d) else .error errUint64Range

/-- `strconv.ParseUint(s, 16, 64)` with `hexutil`'s error mapping. -/
def parseUint (digits : List Char) : Except String Nat :=
  digits.foldlM parseStep 0

/-- `DecodeUint64`. -/
def decodeUint64 (input : String) : Except String UInt64 := do
  let digits ← checkNumber input.toList
  let n ← parseUint digits
  return UInt64.ofNat n

/-! ## The round trip -/

theorem hexDigitVal_digitChar : ∀ d < 16, hexDigitVal (Nat.digitChar d) = some d := by
  decide

theorem digitChar_ne_zero_char : ∀ d < 16, d ≠ 0 → Nat.digitChar d ≠ '0' := by
  decide

/-- Reading the digits `Nat.toDigits` prints gives the number back. -/
theorem parseUint_toDigits : ∀ m, m < 2 ^ 64 → parseUint (Nat.toDigits 16 m) = .ok m := by
  intro m
  -- strong induction: the digits of `m` are those of `m / 16` and one more
  induction m using Nat.strong_induction_on with
  | _ m ih =>
    intro hm
    rw [Nat.toDigits_eq_if (by norm_num)]
    split
    · rename_i hlt
      have hm' : m < 18446744073709551616 := hm
      simp [parseUint, parseStep, hexDigitVal_digitChar m hlt, hm']
    · rename_i hge
      have hdiv : m / 16 < m := Nat.div_lt_self (by omega) (by norm_num)
      have hrec := ih (m / 16) hdiv (by omega)
      have hdig := hexDigitVal_digitChar (m % 16) (Nat.mod_lt _ (by norm_num))
      have hsplit : 16 * (m / 16) + m % 16 = m := Nat.div_add_mod m 16
      rw [parseUint] at hrec ⊢
      simp only [List.foldlM_append, hrec, except_ok_bind, List.foldlM_cons, List.foldlM_nil,
        parseStep, hdig, hsplit, if_pos hm, bind_pure]

/-- The digits of a positive number do not start with `0`. -/
theorem toDigits_head_ne_zero : ∀ m, 0 < m → ∃ c rest, Nat.toDigits 16 m = c :: rest ∧ c ≠ '0' := by
  intro m
  induction m using Nat.strong_induction_on with
  | _ m ih =>
    intro hm
    rw [Nat.toDigits_eq_if (by norm_num)]
    split
    · rename_i hlt
      exact ⟨_, [], rfl, digitChar_ne_zero_char m hlt (by omega)⟩
    · rename_i hge
      obtain ⟨c, rest, hdigits, hc⟩ :=
        ih (m / 16) (Nat.div_lt_self (by omega) (by norm_num)) (by omega)
      exact ⟨c, rest ++ _, by rw [hdigits, List.cons_append], hc⟩

/-- What `EncodeUint64` prints passes `checkNumber` with its digits. -/
theorem checkNumber_encode (m : Nat) :
    checkNumber ('0' :: 'x' :: Nat.toDigits 16 m) = .ok (Nat.toDigits 16 m) := by
  rcases Nat.eq_zero_or_pos m with rfl | hm
  · rfl
  · obtain ⟨c, rest, hdigits, hc⟩ := toDigits_head_ne_zero m hm
    rw [hdigits]
    -- a first digit other than `0` passes the leading-zero check
    cases rest <;> simp [checkNumber, hc]

/-- `DecodeUint64` reads back what `EncodeUint64` prints. -/
theorem decodeUint64_encodeUint64 (n : UInt64) : decodeUint64 (encodeUint64 n) = .ok n := by
  have hparse := parseUint_toDigits n.toNat n.toNat_lt
  simp only [decodeUint64, encodeUint64, String.toList_ofList, checkNumber_encode, except_ok_bind,
    hparse, UInt64.ofNat_toNat]
  rfl

theorem digitChar_utf8Size : ∀ d < 16, (Nat.digitChar d).utf8Size = 1 := by
  decide

/-- The digits are ASCII: one byte each. -/
theorem utf8Len_toDigits : ∀ m, String.utf8Len (Nat.toDigits 16 m) = (Nat.toDigits 16 m).length := by
  intro m
  induction m using Nat.strong_induction_on with
  | _ m ih =>
    rw [Nat.toDigits_eq_if (by norm_num)]
    split
    · rename_i hlt
      simp [String.utf8Len_cons, digitChar_utf8Size m hlt]
    · rename_i hge
      have hrec := ih (m / 16) (Nat.div_lt_self (by omega) (by norm_num))
      simp [String.utf8Len_append, hrec, digitChar_utf8Size (m % 16) (Nat.mod_lt _ (by norm_num))]

/-- A printed quantity is at most 18 bytes long: `0x` and 16 digits. -/
theorem utf8ByteSize_encodeUint64_le (u : UInt64) : (encodeUint64 u).utf8ByteSize ≤ 18 := by
  have hlen : (Nat.toDigits 16 u.toNat).length ≤ 16 :=
    (Nat.length_toDigits_le_iff (by norm_num) (by norm_num)).mpr (by simpa using u.toNat_lt)
  have h0 : ('0').utf8Size = 1 := by decide
  have hx : ('x').utf8Size = 1 := by decide
  rw [encodeUint64, String.utf8ByteSize_ofList, String.utf8Len_cons, String.utf8Len_cons,
    utf8Len_toDigits]
  omega

end Proxyd.Eth
