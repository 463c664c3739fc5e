import Proxyd.Go.Json
import Proxyd.Eth.Hexutil

/-
  Proxyd.Eth.BlockNumber

  go-ethereum's block references, `rpc.BlockNumber` and
  `rpc.BlockNumberOrHash`, with the JSON decoders the rewriter and a backend
  apply to a request's block parameter and the encoding `json.Marshal` gives
  a rewritten one.

  A block number is an `int64`; the tags are the negative numbers `-4` (safe)
  to `-1` (pending), and `0` is both block `0` and the tag `earliest`.  The
  decoders read a value as Go prints it: a string is read between its quotes,
  and since Go's escaping never produces a tag letter or a hex digit, reading
  the unescaped string gives the same outcome.
-/

namespace Proxyd.Eth

open Proxyd.Go

/-- The tags of `rpc.BlockNumber`. -/
def safeBlockNumber : Int64 := -4
def finalizedBlockNumber : Int64 := -3
def latestBlockNumber : Int64 := -2
def pendingBlockNumber : Int64 := -1
def earliestBlockNumber : Int64 := 0

/-- The block number a tag name stands for. -/
def blockTag? (input : String) : Option Int64 :=
  match input with
  | "earliest" => some earliestBlockNumber
  | "latest" => some latestBlockNumber
  | "pending" => some pendingBlockNumber
  | "finalized" => some finalizedBlockNumber
  | "safe" => some safeBlockNumber
  | _ => none

/-- A text that starts with `0` names no tag. -/
theorem blockTag?_of_head_zero {input : String} (h : input.toList.head? = some '0') :
    blockTag? input = none := by
  unfold blockTag?
  split <;> first | rfl | simp at h

/-- A quantity up to `math.MaxInt64` as a block number. -/
def quantityBlockNumber (n : UInt64) (tooHigh : String) : Except String Int64 :=
  if n.toNat > 2 ^ 63 - 1 then .error tooHigh else .ok n.toInt64

/-- `BlockNumber.UnmarshalJSON` on the text inside the quotes (or a bare
    literal): a tag, or a quantity that fits in an `int64`. -/
def blockNumberOfText (input : String) : Except String Int64 :=
  match blockTag? input with
  | some bn => .ok bn
  | none => do
    let n ← decodeUint64 input
    quantityBlockNumber n "block number larger than int64"

/-- `BlockNumber.UnmarshalJSON` on the text Go prints for a JSON value; an
    array or object prints as a text without the `0x` prefix. -/
def BlockNumber.unmarshalJSON : Json → Except String Int64
  | .str s => blockNumberOfText s
  | .num lit => blockNumberOfText lit
  | .bool b => blockNumberOfText (toString b)
  | _ => .error errMissingPrefix

/-- `BlockNumber.String` (and `MarshalText`): the tag names, or the quantity. -/
def BlockNumber.toString (bn : Int64) : String :=
  if bn = earliestBlockNumber then "earliest"
  else if bn = latestBlockNumber then "latest"
  else if bn = pendingBlockNumber then "pending"
  else if bn = finalizedBlockNumber then "finalized"
  else if bn = safeBlockNumber then "safe"
  else if bn < 0 then "<invalid " ++ ToString.toString bn.toInt ++ ">"
  else encodeUint64 bn.toUInt64

/-! ## Block hashes -/

/-- `hexutil.UnmarshalFixedText` into a 32-byte `common.Hash`: `0x` and 64
    hex digits of either case, kept as the lowercase digits `Hash.Hex`
    prints after `0x`. -/
def hashOfText (typname input : String) : Except String String :=
  match input.toList with
  | [] => .error ("hex string has length 0, want 64 for " ++ typname)
  | '0' :: x :: raw =>
    if x = 'x' ∨ x = 'X' then
      if raw.length % 2 ≠ 0 then .error "hex string of odd length"
      else if raw.length ≠ 64 then
        .error ("hex string has length " ++ ToString.toString raw.length ++ ", want 64 for " ++ typname)
      else if raw.all (fun c => (hexDigitVal c).isSome) then .ok (String.ofList (raw.map Char.toLower))
      else .error errSyntax
    else .error errMissingPrefix
  | _ => .error errMissingPrefix

/-- `common.Hash.UnmarshalJSON`: a string holding a hash. -/
def hashOfJson : Json → Except String String
  | .str s => hashOfText "common.Hash" s
  | _ => .error "json: cannot unmarshal non-string into Go value of type common.Hash"

/-! ## `BlockNumberOrHash` -/

/-- `rpc.BlockNumberOrHash`; a hash is kept as its lowercase hex digits. -/
structure BlockNumberOrHash where
  blockNumber : Option Int64
  blockHash : Option String
  requireCanonical : Bool
  deriving DecidableEq, Repr

/-- `rpc.BlockNumberOrHashWithNumber`. -/
def blockNumberOrHashWithNumber (bn : Int64) : BlockNumberOrHash := ⟨some bn, none, false⟩

/-- A `bool` field: `null` leaves it as it was. -/
def decodeBoolField : List Json → Bool → Except String Bool
  | [], acc => .ok acc
  | .null :: vs, acc => decodeBoolField vs acc
  | .bool b :: vs, _ => decodeBoolField vs b
  | v :: _, _ =>
    .error ("json: cannot unmarshal " ++ v.kind ++ " into Go struct field .requireCanonical of type bool")

/-- `json.Unmarshal` of an object into the fields of `BlockNumberOrHash`
    (the `erased` type, without the custom decoder). -/
def unmarshalErased (ms : List (String × Json)) : Except String BlockNumberOrHash := do
  let bn ← decodePtrField BlockNumber.unmarshalJSON (foldMatches ms "blockNumber") none
  let h ← decodePtrField hashOfJson (foldMatches ms "blockHash") none
  let rc ← decodeBoolField (foldMatches ms "requireCanonical") false
  return ⟨bn, h, rc⟩

/-- The string form of `BlockNumberOrHash.UnmarshalJSON`: a tag, a hash of 66
    bytes, or a quantity that fits in an `int64`. -/
def blockNumberOrHashOfString (input : String) : Except String BlockNumberOrHash :=
  match blockTag? input with
  | some bn => .ok (blockNumberOrHashWithNumber bn)
  | none =>
    if input.utf8ByteSize = 66 then do
      let h ← hashOfText "Hash" input
      return ⟨none, some h, false⟩
    else do
      let n ← decodeUint64 input
      let bn ← quantityBlockNumber n "blocknumber too high"
      return blockNumberOrHashWithNumber bn

/-- `BlockNumberOrHash.UnmarshalJSON` on the text Go prints for a JSON value:
    first as an object (`null` leaves every field unset), then as a string. -/
def BlockNumberOrHash.unmarshalJSON : Json → Except String BlockNumberOrHash
  | .null => .ok ⟨none, none, false⟩
  | .obj ms =>
    match unmarshalErased ms with
    | .ok e =>
      if e.blockNumber.isSome ∧ e.blockHash.isSome then
        .error "cannot specify both BlockHash and BlockNumber, choose one or the other"
      else .ok e
    | .error _ => .error "json: cannot unmarshal object into Go value of type string"
  | .str input => blockNumberOrHashOfString input
  | j => .error ("json: cannot unmarshal " ++ j.kind ++ " into Go value of type string")

/-- `json.Marshal` of a `BlockNumberOrHash`: its fields in order, each left
    out when empty (`omitempty`). -/
def BlockNumberOrHash.toJson (bnh : BlockNumberOrHash) : Json :=
  .obj ((match bnh.blockNumber with
      | some bn => [("blockNumber", Json.str (BlockNumber.toString bn))]
      | none => []) ++
    (match bnh.blockHash with
      | some h => [("blockHash", Json.str ("0x" ++ h))]
      | none => []) ++
    (if bnh.requireCanonical then [("requireCanonical", Json.bool true)] else []))

/-! ## Quantities read back -/

theorem toInt_toInt64_of_lt (u : UInt64) (h : u.toNat < 2 ^ 63) : u.toInt64.toInt = u.toNat := by
  have hu : u.toInt64 = Int64.ofNat u.toNat := by rw [← UInt64.toInt64_ofNat', UInt64.ofNat_toNat]
  rw [hu, Int64.toInt_ofNat_of_lt h]

theorem quantityBlockNumber_of_lt (n : UInt64) (tooHigh : String) (h : n.toNat < 2 ^ 63) :
    quantityBlockNumber n tooHigh = .ok n.toInt64 := by
  unfold quantityBlockNumber
  rw [if_neg (by omega)]

theorem encodeUint64_head (u : UInt64) : (encodeUint64 u).toList.head? = some '0' := by
  simp [encodeUint64]

/-- A quantity below `2^63`, printed by `EncodeUint64`, reads back as that
    block number. -/
theorem blockNumberOfText_encodeUint64 (u : UInt64) (h : u.toNat < 2 ^ 63) :
    blockNumberOfText (encodeUint64 u) = .ok u.toInt64 := by
  simp [blockNumberOfText, blockTag?_of_head_zero (encodeUint64_head u),
    decodeUint64_encodeUint64, quantityBlockNumber_of_lt u _ h]

/-- The same through the string form of `BlockNumberOrHash`. -/
theorem blockNumberOrHashOfString_encodeUint64 (u : UInt64) (h : u.toNat < 2 ^ 63) :
    blockNumberOrHashOfString (encodeUint64 u) = .ok (blockNumberOrHashWithNumber u.toInt64) := by
  have hlen : (encodeUint64 u).utf8ByteSize ≠ 66 := by
    have := utf8ByteSize_encodeUint64_le u
    omega
  simp [blockNumberOrHashOfString, blockTag?_of_head_zero (encodeUint64_head u), hlen,
    decodeUint64_encodeUint64, quantityBlockNumber_of_lt u _ h]

/-- A quantity below `2^63` is no tag but possibly `earliest`, which is the
    same block `0`. -/
theorem toInt64_ne_tags (x : UInt64) (h : x.toNat < 2 ^ 63) :
    x.toInt64 ≠ latestBlockNumber ∧ x.toInt64 ≠ safeBlockNumber ∧
      x.toInt64 ≠ finalizedBlockNumber ∧ x.toInt64 ≠ pendingBlockNumber := by
  have hpos : 0 ≤ x.toInt64.toInt := by rw [toInt_toInt64_of_lt x h]; omega
  refine ⟨?_, ?_, ?_, ?_⟩ <;> intro heq <;> rw [heq] at hpos <;> revert hpos <;> decide

/-- `BlockNumber.String` of a quantity below `2^63` reads back as it. -/
theorem blockNumberOfText_toString (x : UInt64) (h : x.toNat < 2 ^ 63) :
    blockNumberOfText (BlockNumber.toString x.toInt64) = .ok x.toInt64 := by
  obtain ⟨hl, hs, hf, hp⟩ := toInt64_ne_tags x h
  have hneg : ¬ x.toInt64 < 0 := by
    rw [Int64.lt_iff_toInt_lt, toInt_toInt64_of_lt x h]
    simp
  by_cases hz : x.toInt64 = earliestBlockNumber
  · rw [BlockNumber.toString, if_pos hz, hz]
    rfl
  · rw [BlockNumber.toString, if_neg hz, if_neg hl, if_neg hp, if_neg hf, if_neg hs, if_neg hneg,
      UInt64.toUInt64_toInt64]
    exact blockNumberOfText_encodeUint64 x h

/-- The encoding of a rewritten reference, `{"blockNumber": ...}`, reads back
    as the reference. -/
theorem unmarshalJSON_toJson_withNumber (x : UInt64) (h : x.toNat < 2 ^ 63) :
    BlockNumberOrHash.unmarshalJSON (blockNumberOrHashWithNumber x.toInt64).toJson =
      .ok (blockNumberOrHashWithNumber x.toInt64) := by
  have hhash : (foldName "blockNumber" == foldName "blockHash") = false := by decide
  have hcanon : (foldName "blockNumber" == foldName "requireCanonical") = false := by decide
  simp [BlockNumberOrHash.toJson, blockNumberOrHashWithNumber, BlockNumberOrHash.unmarshalJSON,
    unmarshalErased, foldMatches, hhash, hcanon, decodePtrField, decodeBoolField,
    BlockNumber.unmarshalJSON, blockNumberOfText_toString x h]

/-- The encoding is already in the form Go prints an `interface{}` value. -/
theorem goValue_toJson_withNumber (bn : Int64) :
    (blockNumberOrHashWithNumber bn).toJson.goValue = (blockNumberOrHashWithNumber bn).toJson := by
  simp [BlockNumberOrHash.toJson, blockNumberOrHashWithNumber, Json.goValue, goMembers, toGoMap,
    GoMap.set, GoMap.empty, sortByKey]

end Proxyd.Eth
