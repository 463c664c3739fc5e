import Proxyd.Go.Float
import Mathlib.Algebra.Order.Field.Power
import Mathlib.Algebra.Order.Floor.Semifield
import Mathlib.Data.Rat.Floor
import Mathlib.Data.List.TakeWhile
import Mathlib.Tactic.FieldSimp
import Mathlib.Tactic.Linarith
import Mathlib.Tactic.Positivity
import Mathlib.Tactic.Ring

/-
  Proxyd.Go.FloatSpec

  What the `float64` round trip of `encoding/json` keeps: the text the
  encoder prints for a `float64` reads back as that same `float64`
  (`parseFloat_formatFloat`).

  The proof reads the computations on naturals as rational arithmetic:
  `floorLogRatio` is the floor of a logarithm, `roundHalfEven` a rounding to
  the nearest integer, and `Float64.ofRatio` the rounding to the nearest
  `float64` (`ofRatio_of_near`: a value within half a gap of `f` rounds to
  `f`).  The printer's decimal reads back as `f` by the search's own check,
  or, at seventeen digits, because the nearest seventeen-digit decimal is
  within a quarter of a gap (`ofDecimal_seventeen`).
-/

namespace Proxyd.Go

/-! ## Logarithms and rounding of ratios -/

section Ratio

variable {base a b : ℕ}

theorem powLe_iff (hbase : 0 < base) (hb : 0 < b) (t : ℤ) :
    powLe base t a b = true ↔ (base : ℚ) ^ t ≤ (a : ℚ) / b := by
  have hbq : (0 : ℚ) < b := by exact_mod_cast hb
  rw [le_div_iff₀ hbq]
  unfold powLe
  split
  · rename_i ht
    obtain ⟨n, rfl⟩ := Int.eq_ofNat_of_zero_le ht
    simp only [Int.toNat_natCast, decide_eq_true_eq, zpow_natCast]
    rw [mul_comm]
    exact_mod_cast Iff.rfl
  · rename_i ht
    obtain ⟨n, hn⟩ : ∃ n : ℕ, t = -(n : ℤ) := ⟨(-t).toNat, by omega⟩
    subst hn
    have hp : (0 : ℚ) < (base : ℚ) ^ n := by positivity
    simp only [neg_neg, Int.toNat_natCast, decide_eq_true_eq, zpow_neg, zpow_natCast]
    rw [← div_eq_inv_mul, div_le_iff₀ hp]
    exact_mod_cast Iff.rfl

/-- `floorLogRatio` brackets `a / b` between two consecutive powers. -/
theorem floorLogRatio_spec (hbase : 1 < base) (ha : 0 < a) (hb : 0 < b) :
    (base : ℚ) ^ floorLogRatio base a b ≤ (a : ℚ) / b ∧
      (a : ℚ) / b < (base : ℚ) ^ (floorLogRatio base a b + 1) := by
  have hB : (1 : ℚ) < base := by exact_mod_cast hbase
  have hB0 : (base : ℚ) ≠ 0 := by positivity
  have hbq : (0 : ℚ) < b := by exact_mod_cast hb
  -- the logarithms of the parts bracket each part
  have ha1 : ((base ^ Nat.log base a : ℕ) : ℚ) ≤ a := by exact_mod_cast Nat.pow_log_le_self base ha.ne'
  have ha2 : (a : ℚ) < ((base ^ (Nat.log base a + 1) : ℕ) : ℚ) := by
    exact_mod_cast Nat.lt_pow_succ_log_self hbase a
  have hb1 : ((base ^ Nat.log base b : ℕ) : ℚ) ≤ b := by exact_mod_cast Nat.pow_log_le_self base hb.ne'
  have hb2 : (b : ℚ) < ((base ^ (Nat.log base b + 1) : ℕ) : ℚ) := by
    exact_mod_cast Nat.lt_pow_succ_log_self hbase b
  push_cast at ha1 ha2 hb1 hb2
  set la := Nat.log base a
  set lb := Nat.log base b
  -- so `a / b` lies strictly between `base ^ (la - lb - 1)` and `base ^ (la - lb + 1)`
  have hlow : (base : ℚ) ^ ((la : ℤ) - lb - 1) < (a : ℚ) / b := by
    rw [lt_div_iff₀ hbq]
    calc (base : ℚ) ^ ((la : ℤ) - lb - 1) * b
        < (base : ℚ) ^ ((la : ℤ) - lb - 1) * (base : ℚ) ^ (lb + 1) := by gcongr
      _ = (base : ℚ) ^ la := by
        rw [← zpow_natCast, ← zpow_natCast, ← zpow_add₀ hB0]; congr 1; push_cast; ring
      _ ≤ a := ha1
  have hhigh : (a : ℚ) / b < (base : ℚ) ^ ((la : ℤ) - lb + 1) := by
    rw [div_lt_iff₀ hbq]
    calc (a : ℚ) < (base : ℚ) ^ (la + 1) := ha2
      _ = (base : ℚ) ^ ((la : ℤ) - lb + 1) * (base : ℚ) ^ lb := by
        rw [← zpow_natCast, ← zpow_natCast, ← zpow_add₀ hB0]; congr 1; push_cast; ring
      _ ≤ (base : ℚ) ^ ((la : ℤ) - lb + 1) * b := by gcongr
  unfold floorLogRatio
  dsimp only
  split
  · rename_i hle
    exact ⟨(powLe_iff (by omega) hb _).mp hle, hhigh⟩
  · rename_i hlt
    have hlt' : (a : ℚ) / b < (base : ℚ) ^ ((la : ℤ) - lb) := by
      rw [powLe_iff (by omega) hb] at hlt
      exact lt_of_not_ge hlt
    refine ⟨hlow.le, ?_⟩
    simpa using hlt'

/-- The floor of the logarithm is the one power that brackets `a / b`. -/
theorem floorLogRatio_eq (hbase : 1 < base) (ha : 0 < a) (hb : 0 < b) {t : ℤ}
    (h1 : (base : ℚ) ^ t ≤ (a : ℚ) / b) (h2 : (a : ℚ) / b < (base : ℚ) ^ (t + 1)) :
    floorLogRatio base a b = t := by
  have hB : (1 : ℚ) < base := by exact_mod_cast hbase
  obtain ⟨s1, s2⟩ := floorLogRatio_spec hbase ha hb
  by_contra hne
  rcases lt_or_gt_of_ne hne with hlt | hgt
  · -- a smaller floor would put `a / b` below `base ^ t`
    have : (base : ℚ) ^ (floorLogRatio base a b + 1) ≤ (base : ℚ) ^ t :=
      zpow_le_zpow_right₀ hB.le (by omega)
    linarith
  · have : (base : ℚ) ^ (t + 1) ≤ (base : ℚ) ^ floorLogRatio base a b :=
      zpow_le_zpow_right₀ hB.le (by omega)
    linarith

/-- `a / b` split into its integer part and a remainder below one. -/
theorem ratio_eq_div_add (hb : 0 < b) :
    (a : ℚ) / b = ((a / b : ℕ) : ℚ) + ((a % b : ℕ) : ℚ) / b := by
  have hbq : (b : ℚ) ≠ 0 := by positivity
  have h : (a : ℚ) = b * ((a / b : ℕ) : ℚ) + ((a % b : ℕ) : ℚ) := by
    exact_mod_cast (Nat.div_add_mod a b).symm
  rw [h]
  field_simp

/-- Rounding half to even moves `a / b` by at most a half. -/
theorem abs_roundHalfEven_sub_le (hb : 0 < b) :
    |(roundHalfEven a b : ℚ) - (a : ℚ) / b| ≤ 1 / 2 := by
  have hbq : (0 : ℚ) < b := by exact_mod_cast hb
  have hr : ((a % b : ℕ) : ℚ) < b := by exact_mod_cast Nat.mod_lt a hb
  have hr0 : (0 : ℚ) ≤ ((a % b : ℕ) : ℚ) := by positivity
  rw [ratio_eq_div_add hb]
  -- the distance is the remainder's share, or one less
  have hdown : 2 * (a % b) ≤ b → |((a / b : ℕ) : ℚ) - (((a / b : ℕ) : ℚ) + ((a % b : ℕ) : ℚ) / b)| ≤ 1 / 2 := by
    intro h
    have h' : (2 : ℚ) * ((a % b : ℕ) : ℚ) ≤ b := by exact_mod_cast h
    have hle : ((a % b : ℕ) : ℚ) / b ≤ 1 / 2 := by rw [div_le_iff₀ hbq]; linarith
    have h0 : 0 ≤ ((a % b : ℕ) : ℚ) / b := by positivity
    rw [abs_le]
    constructor <;> linarith
  have hup : b ≤ 2 * (a % b) → |(((a / b + 1 : ℕ)) : ℚ) - (((a / b : ℕ) : ℚ) + ((a % b : ℕ) : ℚ) / b)| ≤ 1 / 2 := by
    intro h
    have h' : (b : ℚ) ≤ 2 * ((a % b : ℕ) : ℚ) := by exact_mod_cast h
    have hlt1 : ((a % b : ℕ) : ℚ) / b < 1 := (div_lt_one hbq).mpr hr
    have hge : 1 / 2 ≤ ((a % b : ℕ) : ℚ) / b := by rw [le_div_iff₀ hbq]; linarith
    push_cast
    rw [abs_le]
    constructor <;> linarith
  unfold roundHalfEven
  split
  · exact hdown (by omega)
  · split
    · exact hup (by omega)
    · split
      · exact hdown (by omega)
      · exact hup (by omega)

/-- An integer within a half of `a / b` is what rounding gives. -/
theorem roundHalfEven_eq_of_abs_lt (hb : 0 < b) {n : ℕ} (h : |(a : ℚ) / b - n| < 1 / 2) :
    roundHalfEven a b = n := by
  have h' := abs_roundHalfEven_sub_le (a := a) hb
  -- two integers within a half of the same value, one of them strictly, are equal
  have hlt : |((roundHalfEven a b : ℕ) : ℚ) - n| < 1 := by
    calc |((roundHalfEven a b : ℕ) : ℚ) - n|
        = |((roundHalfEven a b : ℕ) : ℚ) - (a : ℚ) / b + ((a : ℚ) / b - n)| := by ring_nf
      _ ≤ |((roundHalfEven a b : ℕ) : ℚ) - (a : ℚ) / b| + |(a : ℚ) / b - n| := abs_add_le _ _
      _ < 1 := by linarith
  have hz : |((roundHalfEven a b : ℤ) - n : ℤ)| < 1 := by
    have : ((|((roundHalfEven a b : ℤ) - n : ℤ)| : ℤ) : ℚ) < 1 := by push_cast; exact hlt
    exact_mod_cast this
  have := abs_lt.mp hz
  omega

/-- The remainder's share of `b` against a half. -/
theorem two_mod_lt_iff (hb : 0 < b) : 2 * (a % b) < b ↔ ((a % b : ℕ) : ℚ) / b < 1 / 2 := by
  have hbq : (0 : ℚ) < b := by exact_mod_cast hb
  rw [div_lt_iff₀ hbq]
  constructor
  · intro h
    have : ((2 * (a % b) : ℕ) : ℚ) < b := by exact_mod_cast h
    push_cast at this
    linarith
  · intro h
    have : ((2 * (a % b) : ℕ) : ℚ) < b := by push_cast; linarith
    exact_mod_cast this

theorem lt_two_mod_iff (hb : 0 < b) : b < 2 * (a % b) ↔ 1 / 2 < ((a % b : ℕ) : ℚ) / b := by
  have hbq : (0 : ℚ) < b := by exact_mod_cast hb
  rw [lt_div_iff₀ hbq]
  constructor
  · intro h
    have : (b : ℚ) < ((2 * (a % b) : ℕ) : ℚ) := by exact_mod_cast h
    push_cast at this
    linarith
  · intro h
    have : (b : ℚ) < ((2 * (a % b) : ℕ) : ℚ) := by push_cast; linarith
    exact_mod_cast this

/-- Rounding `a / b` depends on the value of the ratio only. -/
theorem roundHalfEven_congr {a' b' : ℕ} (hb : 0 < b) (hb' : 0 < b')
    (h : (a : ℚ) / b = (a' : ℚ) / b') : roundHalfEven a b = roundHalfEven a' b' := by
  -- the integer parts agree, and so do the remainders' shares
  have hq : a / b = a' / b' := by
    have h1 : ⌊(a : ℚ) / b⌋₊ = a / b := Nat.floor_div_eq_div a b
    have h2 : ⌊(a' : ℚ) / b'⌋₊ = a' / b' := Nat.floor_div_eq_div a' b'
    rw [← h1, ← h2, h]
  have hr : ((a % b : ℕ) : ℚ) / b = ((a' % b' : ℕ) : ℚ) / b' := by
    have e1 := ratio_eq_div_add (a := a) hb
    have e2 := ratio_eq_div_add (a := a') hb'
    rw [hq] at e1
    linarith
  unfold roundHalfEven
  simp only [two_mod_lt_iff hb, two_mod_lt_iff hb', lt_two_mod_iff hb, lt_two_mod_iff hb', hr, hq]

end Ratio

/-! ## Scaling and packing -/

theorem scaleRatio_pos {base a b : ℕ} (hbase : 0 < base) (hb : 0 < b) (e : ℤ) :
    0 < (scaleRatio base a b e).2 := by
  unfold scaleRatio
  split <;> positivity

/-- `scaleRatio base a b e` is `a / b / base^e`. -/
theorem scaleRatio_value {base a b : ℕ} (e : ℤ) :
    ((scaleRatio base a b e).1 : ℚ) / (scaleRatio base a b e).2 = (a : ℚ) / b / base ^ e := by
  unfold scaleRatio
  split
  · rename_i he
    obtain ⟨n, rfl⟩ := Int.eq_ofNat_of_zero_le he
    simp only [Int.toNat_natCast, zpow_natCast]
    push_cast
    rw [div_div]
  · rename_i he
    obtain ⟨n, hn⟩ : ∃ n : ℕ, e = -(n : ℤ) := ⟨(-e).toNat, by omega⟩
    subst hn
    simp only [neg_neg, Int.toNat_natCast, zpow_neg, zpow_natCast]
    push_cast
    rw [div_inv_eq_mul, div_mul_eq_mul_div]

namespace Float64

theorem packFields_of_lt {neg : Bool} {m : ℕ} (hm : m < 2 ^ 52) (e : ℤ) :
    packFields neg m e = some ⟨neg, 0, ⟨m, hm⟩⟩ := by
  rw [packFields, dif_pos hm]

theorem pack_of_ne {neg : Bool} {m : ℕ} (hm : m ≠ 2 ^ 53) (e : ℤ) :
    pack neg m e = packFields neg m e := by
  rw [pack, if_neg hm]

/-- A carry out of 53 bits is the next exponent's hidden bit. -/
theorem pack_carry (neg : Bool) (e : ℤ) : pack neg (2 ^ 53) e = packFields neg (2 ^ 52) (e + 1) := by
  rw [pack, if_pos rfl]

/-- Packing the significand and exponent of a `float64` gives back its magnitude. -/
theorem packFields_mant_exp (f : Float64) : packFields false f.mant f.exp = some f.abs := by
  have hfrac := f.frac.isLt
  have hbexp := f.bexp.isLt
  by_cases h0 : f.bexp.val = 0
  · have hm : f.mant = f.frac.val := by simp [mant, h0]
    have hlt : f.mant < 2 ^ 52 := by omega
    rw [packFields_of_lt hlt]
    have hb : f.bexp = 0 := Fin.ext h0
    simp only [abs, Option.some.injEq, mk.injEq, true_and]
    exact ⟨hb.symm, Fin.ext hm⟩
  · have hm : f.mant = 2 ^ 52 + f.frac.val := by simp [mant, h0]
    have he : f.exp = (f.bexp.val : ℤ) - 1075 := by simp [exp, h0]
    have hnlt : ¬ f.mant < 2 ^ 52 := by omega
    have hfit : f.mant < 2 ^ 53 ∧ f.exp + 1075 < 2047 := by omega
    simp only [packFields, dif_neg hnlt, dif_pos hfit, abs, Option.some.injEq, mk.injEq, true_and]
    constructor
    · apply Fin.ext
      simp only [he]
      omega
    · apply Fin.ext
      simp only [hm]
      omega

end Float64

namespace Float64

/-! ## The value of a `float64` -/

/-- The magnitude `mant · 2^exp`. -/
def mag (f : Float64) : ℚ := f.mant * 2 ^ f.exp

variable {f : Float64}

theorem mant_lt (f : Float64) : f.mant < 2 ^ 53 := by
  have := f.frac.isLt
  unfold mant
  split <;> omega

theorem exp_ge (f : Float64) : -1074 ≤ f.exp := by
  unfold exp
  split <;> omega

/-- A significand below the hidden bit belongs to a subnormal, at the lowest exponent. -/
theorem exp_of_mant_lt (h : f.mant < 2 ^ 52) : f.exp = -1074 := by
  unfold mant at h
  unfold exp
  split
  · rfl
  · rename_i h0
    rw [if_neg h0] at h
    omega

theorem ratio_pos (f : Float64) : 0 < f.ratio.2 := by
  unfold ratio
  positivity

/-- `f.ratio` is the magnitude. -/
theorem ratio_value (f : Float64) : (f.ratio.1 : ℚ) / f.ratio.2 = f.mag := by
  unfold ratio mag
  by_cases he : 0 ≤ f.exp
  · obtain ⟨n, hn⟩ := Int.eq_ofNat_of_zero_le he
    rw [hn]
    simp only [Int.toNat_natCast, zpow_natCast]
    have : (-(n : ℤ)).toNat = 0 := by omega
    rw [this]
    push_cast
    ring
  · obtain ⟨n, hn⟩ : ∃ n : ℕ, f.exp = -(n : ℤ) := ⟨(-f.exp).toNat, by omega⟩
    rw [hn]
    have : (-(n : ℤ)).toNat = 0 := by omega
    simp only [this, neg_neg, Int.toNat_natCast, zpow_neg, zpow_natCast]
    push_cast
    ring

end Float64

/-! ## Rounding to the nearest `float64` -/

namespace Float64

/-- Rounding `a / b` depends on the value of the ratio only. -/
theorem ofRatio_congr {neg : Bool} {a b a' b' : ℕ} (hb : 0 < b) (hb' : 0 < b')
    (h : (a : ℚ) / b = (a' : ℚ) / b') : ofRatio neg a b = ofRatio neg a' b' := by
  have hzero : a = 0 ↔ a' = 0 := by
    have hbq : (b : ℚ) ≠ 0 := by positivity
    have hbq' : (b' : ℚ) ≠ 0 := by positivity
    constructor
    · rintro rfl
      simp only [Nat.cast_zero, zero_div] at h
      exact_mod_cast (div_eq_zero_iff.mp h.symm).resolve_right hbq'
    · rintro rfl
      simp only [Nat.cast_zero, zero_div] at h
      exact_mod_cast (div_eq_zero_iff.mp h).resolve_right hbq
  by_cases ha : a = 0
  · simp [ofRatio, ha, hzero.mp ha]
  · have ha' : a' ≠ 0 := fun h' => ha (hzero.mpr h')
    -- the same binade, and the same scaled ratio in it
    have hlog : floorLogRatio 2 a b = floorLogRatio 2 a' b' := by
      obtain ⟨h1, h2⟩ := floorLogRatio_spec (show 1 < 2 by norm_num) (Nat.pos_of_ne_zero ha') hb'
      push_cast at h1 h2
      exact floorLogRatio_eq (show 1 < 2 by norm_num) (Nat.pos_of_ne_zero ha) hb (by push_cast; rw [h]; exact h1)
        (by push_cast; rw [h]; exact h2)
    unfold ofRatio
    rw [if_neg ha, if_neg ha', hlog]
    dsimp only
    rw [roundHalfEven_congr (scaleRatio_pos two_pos hb _) (scaleRatio_pos two_pos hb' _)
      (by rw [scaleRatio_value, scaleRatio_value, h])]

theorem packFields_neg (neg : Bool) (m : ℕ) (e : ℤ) :
    packFields neg m e = (packFields false m e).map fun g => { g with neg := neg } := by
  unfold packFields
  split
  · rfl
  · split <;> rfl

/-- The sign only fills the sign field. -/
theorem ofRatio_neg (neg : Bool) (a b : ℕ) :
    ofRatio neg a b = (ofRatio false a b).map fun g => { g with neg := neg } := by
  unfold ofRatio pack
  split
  · rfl
  · dsimp only
    split <;> exact packFields_neg _ _ _

/-- A significand of a normal number has its hidden bit. -/
theorem le_mant_of_exp_ne {f : Float64} (h : f.exp ≠ -1074) : 2 ^ 52 ≤ f.mant := by
  by_contra hlt
  exact h (exp_of_mant_lt (by omega))

/-- A ratio within half a gap of a nonzero `float64` rounds to it; below a
    power of two, where the next value down is half as far, within a quarter. -/
theorem ofRatio_of_near {f : Float64} {a b : ℕ} (hf : 0 < f.mant) (hb : 0 < b)
    (hnear : |(a : ℚ) / b - f.mag| < 2 ^ f.exp / 2)
    (hedge : f.mant = 2 ^ 52 → f.exp ≠ -1074 → f.mag - 2 ^ f.exp / 4 < (a : ℚ) / b) :
    ofRatio false a b = some f.abs := by
  have h2 : (2 : ℚ) ≠ 0 := two_ne_zero
  have hE : (0 : ℚ) < 2 ^ f.exp := by positivity
  have hm1 : (1 : ℚ) ≤ f.mant := by exact_mod_cast hf
  have hmlt : (f.mant : ℚ) + 1 ≤ 2 ^ 53 := by exact_mod_cast f.mant_lt
  have hmag : f.mag = f.mant * 2 ^ f.exp := rfl
  rw [hmag] at hnear hedge
  obtain ⟨hlo, hhi⟩ := abs_lt.mp hnear
  have hx0 : 0 < (a : ℚ) / b := by nlinarith
  have ha : a ≠ 0 := by
    rintro rfl
    simp at hx0
  have hapos : 0 < a := Nat.pos_of_ne_zero ha
  -- powers of two around the exponent
  have hp52 : (2 : ℚ) ^ (f.exp + 52) = 2 ^ f.exp * 2 ^ 52 := by
    rw [zpow_add₀ h2, zpow_ofNat]
  have hp53 : (2 : ℚ) ^ (f.exp + 52 + 1) = 2 ^ f.exp * 2 ^ 53 := by
    rw [zpow_add₀ h2, zpow_add₀ h2, zpow_ofNat, zpow_one]
    ring
  have hxtop : (a : ℚ) / b < 2 ^ f.exp * 2 ^ 53 := by nlinarith
  unfold ofRatio
  rw [if_neg ha]
  dsimp only
  -- at `f`'s own scale the significand rounds back to `f.mant`
  have hown : max (floorLogRatio 2 a b) (-1022) - 52 = f.exp →
      pack false (roundHalfEven (scaleRatio 2 a b (max (floorLogRatio 2 a b) (-1022) - 52)).1
        (scaleRatio 2 a b (max (floorLogRatio 2 a b) (-1022) - 52)).2)
        (max (floorLogRatio 2 a b) (-1022) - 52) = some f.abs := by
    intro hs
    have hround : roundHalfEven (scaleRatio 2 a b f.exp).1 (scaleRatio 2 a b f.exp).2 = f.mant := by
      apply roundHalfEven_eq_of_abs_lt (scaleRatio_pos two_pos hb _)
      rw [scaleRatio_value, Nat.cast_ofNat, div_sub' hE.ne', abs_div, abs_of_pos hE, div_lt_iff₀ hE]
      rw [abs_lt]
      constructor <;> linarith
    rw [hs, hround, pack_of_ne (by have := f.mant_lt; omega), packFields_mant_exp]
  by_cases hin : 2 ^ f.exp * 2 ^ 52 ≤ (a : ℚ) / b
  · -- the binade of `f`
    apply hown
    have hlog : floorLogRatio 2 a b = f.exp + 52 :=
      floorLogRatio_eq (show 1 < 2 by norm_num) hapos hb (by push_cast; rw [hp52]; exact hin)
        (by push_cast; rw [hp53]; exact hxtop)
    have := f.exp_ge
    omega
  rw [not_le] at hin
  by_cases hsub : f.exp = -1074
  · -- the subnormals, at `f`'s scale too
    apply hown
    have hlt : floorLogRatio 2 a b < -1022 := by
      obtain ⟨s1, -⟩ := floorLogRatio_spec (show 1 < 2 by norm_num) hapos hb
      push_cast at s1
      by_contra hge
      have hpow : (2 : ℚ) ^ (-1022 : ℤ) ≤ 2 ^ floorLogRatio 2 a b :=
        zpow_le_zpow_right₀ (by norm_num) (by omega)
      have hcut : (2 : ℚ) ^ (-1022 : ℤ) = 2 ^ f.exp * 2 ^ 52 := by
        rw [← hp52, hsub]
        norm_num
      linarith
    omega
  · -- just below a power of two: the binade underneath, and a carry back up
    have hm : f.mant = 2 ^ 52 := by
      have hle := le_mant_of_exp_ne hsub
      by_contra hne
      have h1 : (2 : ℚ) ^ 52 + 1 ≤ f.mant := by exact_mod_cast (show 2 ^ 52 + 1 ≤ f.mant by omega)
      nlinarith
    have hq := hedge hm hsub
    rw [hm] at hq
    push_cast at hq
    have hp51 : (2 : ℚ) ^ (f.exp + 51) = 2 ^ f.exp * 2 ^ 51 := by
      rw [zpow_add₀ h2, zpow_ofNat]
    have hlog : floorLogRatio 2 a b = f.exp + 51 :=
      floorLogRatio_eq (show 1 < 2 by norm_num) hapos hb (by push_cast; rw [hp51]; nlinarith)
        (by push_cast; rw [show f.exp + 51 + 1 = f.exp + 52 by ring, hp52]; exact hin)
    have hscale : max (floorLogRatio 2 a b) (-1022) - 52 = f.exp - 1 := by
      have := f.exp_ge
      omega
    have hhalf : (2 : ℚ) ^ (f.exp - 1) = 2 ^ f.exp / 2 := by
      rw [zpow_sub₀ h2, zpow_one]
    have hround : roundHalfEven (scaleRatio 2 a b (f.exp - 1)).1 (scaleRatio 2 a b (f.exp - 1)).2 = 2 ^ 53 := by
      apply roundHalfEven_eq_of_abs_lt (scaleRatio_pos two_pos hb _)
      rw [scaleRatio_value, Nat.cast_ofNat, hhalf, div_div_eq_mul_div, abs_lt]
      push_cast
      constructor
      · rw [lt_sub_iff_add_lt, lt_div_iff₀ hE]
        nlinarith
      · rw [sub_lt_iff_lt_add, div_lt_iff₀ hE]
        nlinarith
    rw [hscale, hround, pack_carry, sub_add_cancel, ← hm, packFields_mant_exp]

/-! ## Decimals -/

/-- `ofDecimal` rounds a ratio of value `c · 10^k`. -/
theorem ofDecimal_eq (neg : Bool) (c : ℕ) (k : ℤ) :
    ∃ a b : ℕ, 0 < b ∧ (a : ℚ) / b = c * 10 ^ k ∧ ofDecimal neg c k = ofRatio neg a b := by
  unfold ofDecimal
  split
  · rename_i hk
    obtain ⟨n, rfl⟩ := Int.eq_ofNat_of_zero_le hk
    refine ⟨c * 10 ^ n, 1, one_pos, ?_, rfl⟩
    simp
  · rename_i hk
    obtain ⟨n, hn⟩ : ∃ n : ℕ, k = -(n : ℤ) := ⟨(-k).toNat, by omega⟩
    subst hn
    refine ⟨c, 10 ^ n, by positivity, ?_, by simp⟩
    simp [zpow_neg, div_eq_mul_inv]

/-- Rounding a decimal depends on its value only. -/
theorem ofDecimal_congr {neg : Bool} {c c' : ℕ} {k k' : ℤ} (h : (c : ℚ) * 10 ^ k = c' * 10 ^ k') :
    ofDecimal neg c k = ofDecimal neg c' k' := by
  obtain ⟨a, b, hb, hv, hd⟩ := ofDecimal_eq neg c k
  obtain ⟨a', b', hb', hv', hd'⟩ := ofDecimal_eq neg c' k'
  rw [hd, hd', ofRatio_congr hb hb' (by rw [hv, hv', h])]

theorem mag_pos {f : Float64} (hf : 0 < f.mant) : 0 < f.mag := by
  have : (0 : ℚ) < f.mant := by exact_mod_cast hf
  unfold mag
  positivity

/-- The nearest seventeen-digit decimal reads back as `f`: it is within half
    a unit of its last digit, and that unit is below a quarter of `f`'s gap at
    a power of two and below half of it elsewhere. -/
theorem ofDecimal_seventeen {f : Float64} (hf : 0 < f.mant) :
    ofDecimal false (f.candidates 17).2.1 (f.candidates 17).1 = some f.abs := by
  have hr1 : 0 < f.ratio.1 := by
    have : (0 : ℚ) < f.ratio.1 / f.ratio.2 := by rw [ratio_value]; exact mag_pos hf
    have h2 : (0 : ℚ) < f.ratio.2 := by exact_mod_cast f.ratio_pos
    exact_mod_cast (div_pos_iff_of_pos_right h2).mp this
  obtain ⟨s1, -⟩ := floorLogRatio_spec (show 1 < 10 by norm_num) hr1 f.ratio_pos
  push_cast at s1
  rw [ratio_value] at s1
  -- the unit `10^k` of the seventeenth digit
  set k := floorLogRatio 10 f.ratio.1 f.ratio.2 + 1 - 17 with hk
  have h10 : (0 : ℚ) < 10 ^ k := by positivity
  have hunit : (10 : ℚ) ^ k * 10 ^ 16 ≤ f.mag := by
    have : (10 : ℚ) ^ k * 10 ^ 16 = 10 ^ floorLogRatio 10 f.ratio.1 f.ratio.2 := by
      rw [← zpow_ofNat, ← zpow_add₀ (by norm_num)]
      congr 1
      omega
    rw [this]
    exact s1
  have hdist := abs_roundHalfEven_sub_le (a := (scaleRatio 10 f.ratio.1 f.ratio.2 k).1)
    (@scaleRatio_pos 10 f.ratio.1 f.ratio.2 (by norm_num) f.ratio_pos k)
  rw [scaleRatio_value, ratio_value, Nat.cast_ofNat] at hdist
  obtain ⟨a, b, hb, hv, hd⟩ := ofDecimal_eq false (f.candidates 17).2.1 (f.candidates 17).1
  rw [hd]
  have hnear : (f.candidates 17).2.1 =
      roundHalfEven (scaleRatio 10 f.ratio.1 f.ratio.2 k).1 (scaleRatio 10 f.ratio.1 f.ratio.2 k).2 := rfl
  have hck : (f.candidates 17).1 = k := rfl
  rw [hnear, hck] at hv
  -- the decimal's distance from the magnitude
  have hclose : |(a : ℚ) / b - f.mag| ≤ 10 ^ k / 2 := by
    have : (a : ℚ) / b - f.mag = ((roundHalfEven (scaleRatio 10 f.ratio.1 f.ratio.2 k).1
        (scaleRatio 10 f.ratio.1 f.ratio.2 k).2 : ℕ) - f.mag / 10 ^ k) * 10 ^ k := by
      rw [hv]
      field_simp
    rw [this, abs_mul, abs_of_pos h10]
    nlinarith [abs_nonneg ((roundHalfEven (scaleRatio 10 f.ratio.1 f.ratio.2 k).1
        (scaleRatio 10 f.ratio.1 f.ratio.2 k).2 : ℚ) - f.mag / 10 ^ k)]
  have hE : (0 : ℚ) < 2 ^ f.exp := by positivity
  have hmlt : (f.mant : ℚ) + 1 ≤ 2 ^ 53 := by exact_mod_cast f.mant_lt
  have hmag : f.mag = f.mant * 2 ^ f.exp := rfl
  apply ofRatio_of_near hf hb
  · -- `10^k · 10^16 ≤ f.mag < 2^53 · 2^exp < 10^16 · 2^exp`
    have hlt : (10 : ℚ) ^ k < 2 ^ f.exp := by
      have : (10 : ℚ) ^ k * 10 ^ 16 < 2 ^ f.exp * 10 ^ 16 := by nlinarith
      exact lt_of_mul_lt_mul_right this (by positivity)
    linarith
  · -- at a power of two the magnitude is `2^52 · 2^exp`, and `2^54 < 2 · 10^16`
    intro hm _
    rw [hm] at hmag
    push_cast at hmag
    have hlt : (10 : ℚ) ^ k * 2 < 2 ^ f.exp := by
      have : (10 : ℚ) ^ k * 2 * 10 ^ 16 < 2 ^ f.exp * 10 ^ 16 := by nlinarith
      exact lt_of_mul_lt_mul_right this (by positivity)
    have := (abs_le.mp hclose).1
    linarith

/-- A decimal the search accepts reads back as `f`. -/
theorem digitsOf?_spec {f : Float64} {n c : ℕ} {k : ℤ} (h : f.digitsOf? n = some (c, k)) :
    ofDecimal false c k = some f.abs := by
  unfold digitsOf? at h
  dsimp only at h
  split at h
  · rename_i h1
    cases h
    exact h1
  · split at h
    · rename_i h2
      cases h
      exact h2
    · cases h

/-- The shortest decimal reads back as `f`. -/
theorem shortest_spec {f : Float64} (hf : 0 < f.mant) :
    ofDecimal false f.shortest.1 f.shortest.2 = some f.abs := by
  unfold shortest
  cases hs : (List.range 16).findSome? (fun i => f.digitsOf? (i + 1)) with
  | none => exact ofDecimal_seventeen hf
  | some ck =>
    obtain ⟨i, -, hi⟩ := List.exists_of_findSome?_eq_some hs
    exact digitsOf?_spec hi

end Float64


/-! ## Digits -/

theorem foldl_digitStep (n : ℕ) (ys : List Char) :
    ys.foldl (fun n d => 10 * n + (d.toNat - '0'.toNat)) n = n * 10 ^ ys.length + digitsValue ys := by
  -- the digits read so far are shifted past each later one
  induction ys generalizing n with
  | nil => simp [digitsValue]
  | cons y ys ih =>
    have hcons : digitsValue (y :: ys) = (y.toNat - '0'.toNat) * 10 ^ ys.length + digitsValue ys := by
      rw [digitsValue, List.foldl_cons, ih]
      simp
    rw [List.foldl_cons, ih, hcons, List.length_cons, pow_succ]
    ring

theorem digitsValue_append (xs ys : List Char) :
    digitsValue (xs ++ ys) = digitsValue xs * 10 ^ ys.length + digitsValue ys := by
  rw [digitsValue, List.foldl_append, foldl_digitStep]
  rfl

theorem digitsValue_replicate_zero (n : ℕ) : digitsValue (List.replicate n '0') = 0 := by
  induction n with
  | zero => rfl
  | succ n ih =>
    rw [List.replicate_succ', digitsValue_append, ih]
    rfl

theorem digitChar_value : ∀ d < 10, (Nat.digitChar d).toNat - '0'.toNat = d := by
  decide

theorem digitChar_ne_zero_of_pos : ∀ d < 10, d ≠ 0 → Nat.digitChar d ≠ '0' := by
  decide

/-- Reading the decimal digits of `n` gives `n`. -/
theorem digitsValue_toDigits (n : ℕ) : digitsValue (Nat.toDigits 10 n) = n := by
  -- strong induction: the digits of `n` are those of `n / 10` and one more
  induction n using Nat.strong_induction_on with
  | _ n ih =>
    rw [Nat.toDigits_eq_if (by norm_num)]
    split
    · rename_i hlt
      simp only [digitsValue, List.foldl_cons, List.foldl_nil, Nat.mul_zero, Nat.zero_add]
      exact digitChar_value n hlt
    · rename_i hge
      rw [digitsValue_append, ih (n / 10) (Nat.div_lt_self (by omega) (by norm_num))]
      simp only [digitsValue, List.foldl_cons, List.foldl_nil, List.length_singleton, pow_one,
        digitChar_value (n % 10) (Nat.mod_lt _ (by norm_num))]
      omega

/-- The decimal digits of a positive number do not start with `0`. -/
theorem toDigits_ten_head (n : ℕ) (hn : 0 < n) :
    ∃ d rest, Nat.toDigits 10 n = d :: rest ∧ d ≠ '0' := by
  induction n using Nat.strong_induction_on with
  | _ n ih =>
    rw [Nat.toDigits_eq_if (by norm_num)]
    split
    · rename_i hlt
      exact ⟨_, [], rfl, digitChar_ne_zero_of_pos n hlt (by omega)⟩
    · rename_i hge
      obtain ⟨d, rest, hdigits, hd⟩ := ih (n / 10) (Nat.div_lt_self hn (by norm_num)) (by omega)
      exact ⟨d, rest ++ _, by rw [hdigits, List.cons_append], hd⟩

/-- A list is its digits up to the trailing zeros, then those zeros. -/
theorem trim_append_zeros (l : List Char) :
    ∃ z, l = (l.reverse.dropWhile (· = '0')).reverse ++ List.replicate z '0' := by
  refine ⟨(l.reverse.takeWhile (· = '0')).length, ?_⟩
  have hz : l.reverse.takeWhile (· = '0') = List.replicate (l.reverse.takeWhile (· = '0')).length '0' :=
    List.eq_replicate_iff.mpr ⟨rfl, fun b hb => by simpa using List.mem_takeWhile_imp hb⟩
  conv_lhs => rw [← List.reverse_reverse l, ← List.takeWhile_append_dropWhile (p := fun c => decide (c = '0'))
    (l := l.reverse)]
  rw [List.reverse_append, hz, List.reverse_replicate, List.length_replicate]

/-- The digits `decimalDigits` keeps: a nonzero digit first, digits after,
    and with the point at `dp` the value `c · 10^k`. -/
theorem decimalDigits_spec {c : ℕ} (hc : 0 < c) (k : ℤ) :
    ∃ d rest, (decimalDigits c k).1 = d :: rest ∧ d.isDigit = true ∧ d ≠ '0' ∧
      (∀ x ∈ rest, x.isDigit = true) ∧
      (digitsValue (d :: rest) : ℚ) * 10 ^ ((decimalDigits c k).2 - (rest.length + 1 : ℕ)) = c * 10 ^ k := by
  obtain ⟨z, hz⟩ := trim_append_zeros (Nat.toDigits 10 c)
  obtain ⟨d0, rest0, hD, hd0⟩ := toDigits_ten_head c hc
  set ds := ((Nat.toDigits 10 c).reverse.dropWhile (· = '0')).reverse with hds
  have hdig : ∀ x ∈ Nat.toDigits 10 c, x.isDigit = true := fun x hx =>
    Nat.isDigit_of_mem_toDigits (by norm_num) (by norm_num) hx
  -- the trimmed digits keep the first one, which is not a zero
  obtain ⟨d, rest, hcons⟩ : ∃ d rest, ds = d :: rest := by
    cases hds' : ds with
    | nil =>
      rw [hds', List.nil_append] at hz
      rw [hD] at hz
      cases z with
      | zero => cases hz
      | succ z => exact absurd (List.cons_eq_cons.mp (hz.trans List.replicate_succ)).1 hd0
    | cons d rest => exact ⟨d, rest, rfl⟩
  have hfirst : d = d0 := by
    rw [hcons, hD, List.cons_append] at hz
    exact (List.cons_eq_cons.mp hz).1.symm
  have hmem : ∀ x ∈ d :: rest, x.isDigit = true := fun x hx =>
    hdig x (by rw [hz, hcons]; exact List.mem_append_left _ hx)
  refine ⟨d, rest, hcons, hmem d (List.mem_cons_self), hfirst ▸ hd0, fun x hx => hmem x (List.mem_cons_of_mem _ hx), ?_⟩
  -- the value: the digits of `c` are the kept ones and `z` zeros
  have hval : c = digitsValue (d :: rest) * 10 ^ z := by
    have := digitsValue_toDigits c
    rw [hz, hcons, digitsValue_append, digitsValue_replicate_zero, List.length_replicate] at this
    omega
  have hlen : (Nat.toDigits 10 c).length = rest.length + 1 + z := by
    rw [hz, hcons]
    simp only [List.length_append, List.length_cons, List.length_replicate]
  simp only [decimalDigits]
  rw [hlen, hval]
  push_cast
  rw [mul_assoc, ← zpow_natCast, ← zpow_add₀ (by norm_num)]
  congr 2
  omega

/-! ## Reading the printed text back -/

section Text

variable {d : Char} {ds rest : List Char}

/-- A run of characters of a class is what a scan of that class takes, up to
    a character outside it. -/
theorem scan_append {p : Char → Bool} (hds : ∀ x ∈ ds, p x = true)
    (hr : ∀ c r, rest = c :: r → p c = false) :
    (ds ++ rest).takeWhile p = ds ∧ (ds ++ rest).dropWhile p = rest := by
  rw [List.takeWhile_append_of_pos hds, List.dropWhile_append_of_pos hds]
  cases rest with
  | nil => simp
  | cons c r => simp [hr c r rfl]

theorem intPart?_digits (hd : d.isDigit = true) (hd0 : d ≠ '0') (hds : ∀ x ∈ ds, x.isDigit = true)
    (hr : ∀ c r, rest = c :: r → c.isDigit = false) :
    intPart? (d :: (ds ++ rest)) = some (d :: ds, rest) := by
  obtain ⟨ht, hdrop⟩ := scan_append hds hr
  unfold intPart?
  split
  · rename_i h
    exact absurd (List.cons_eq_cons.mp h).1 hd0
  · rename_i c cs _ h
    obtain ⟨rfl, rfl⟩ := List.cons_eq_cons.mp h
    rw [if_pos hd, ht, hdrop]
  · rename_i h
    cases h

theorem intPart?_zero (cs : List Char) : intPart? ('0' :: cs) = some (['0'], cs) := by
  simp [intPart?]

theorem fracPart?_point (hne : ds ≠ []) (hds : ∀ x ∈ ds, x.isDigit = true)
    (hr : ∀ c r, rest = c :: r → c.isDigit = false) :
    fracPart? ('.' :: (ds ++ rest)) = some (ds, rest) := by
  obtain ⟨ht, hdrop⟩ := scan_append hds hr
  simp only [fracPart?, ht, hdrop, List.isEmpty_iff, hne, if_false]

theorem fracPart?_of_ne {cs : List Char} (h : ∀ r, cs ≠ '.' :: r) : fracPart? cs = some ([], cs) := by
  unfold fracPart?
  split
  · rename_i h'
    exact absurd rfl (h _)
  · rfl

theorem expPart?_sign {sgn : Char} (hs : sgn = '-' ∨ sgn = '+') (hne : ds ≠ [])
    (hds : ∀ x ∈ ds, x.isDigit = true) :
    expPart? ('e' :: sgn :: ds) =
      some (if sgn = '-' then -(digitsValue ds : ℤ) else digitsValue ds, []) := by
  have ht : ds.takeWhile Char.isDigit = ds := List.takeWhile_eq_self_iff.mpr hds
  have hdrop : ds.dropWhile Char.isDigit = [] := List.dropWhile_eq_nil_iff.mpr hds
  rcases hs with rfl | rfl <;> simp [expPart?, ht, hdrop, hne]

/-- The sign, then a body that does not start with one. -/
theorem parseNumber_of_parts (neg : Bool) {body ip r1 fp r2 : List Char} {ex : ℤ}
    (hbody : ∀ r, body ≠ '-' :: r) (h1 : intPart? body = some (ip, r1))
    (h2 : fracPart? r1 = some (fp, r2)) (h3 : expPart? r2 = some (ex, [])) :
    parseNumber (String.ofList ((if neg then ['-'] else []) ++ body)) =
      some (neg, digitsValue (ip ++ fp), ex - fp.length) := by
  unfold parseNumber
  rw [String.toList_ofList]
  split
  rename_i _ neg' cs' heq
  split at heq
  · -- a leading `-`: the printed sign, and the body after it
    rename_i _ cs hcs
    obtain ⟨rfl, rfl⟩ := Prod.mk.inj heq
    cases neg
    · exact absurd hcs (hbody cs)
    · obtain rfl : body = cs := by simpa using hcs
      simp [h1, h2, h3]
  · rename_i _ hno
    obtain ⟨rfl, rfl⟩ := Prod.mk.inj heq
    cases neg
    · simp [h1, h2, h3]
    · exact absurd rfl (hno body)


/-! ### `%f` -/

theorem fmtF_int (hne : ds ≠ []) {dp : ℤ} (h : (ds.length : ℤ) ≤ dp) :
    fmtF ds dp = ds ++ List.replicate (dp.toNat - ds.length) '0' := by
  have hlen : 0 < ds.length := List.length_pos_iff.mpr hne
  have h0 : (-dp).toNat = 0 := by omega
  have hdrop : ds.drop dp.toNat = [] := List.drop_eq_nil_of_le (by omega)
  have htake : ds.take dp.toNat = ds := List.take_of_length_le (by omega)
  simp [fmtF, h0, hdrop, htake, show 0 < dp by omega]

theorem fmtF_mid {dp : ℤ} (h1 : 0 < dp) (h2 : dp < ds.length) :
    fmtF ds dp = ds.take dp.toNat ++ '.' :: ds.drop dp.toNat := by
  have h0 : (-dp).toNat = 0 := by omega
  have hpad : dp.toNat - ds.length = 0 := by omega
  have hdrop : ds.drop dp.toNat ≠ [] := by
    rw [ne_eq, List.drop_eq_nil_iff]
    omega
  simp [fmtF, h0, hpad, hdrop, h1]

theorem fmtF_small (hne : ds ≠ []) {dp : ℤ} (h : dp ≤ 0) :
    fmtF ds dp = '0' :: '.' :: (List.replicate (-dp).toNat '0' ++ ds) := by
  have h0 : dp.toNat = 0 := by omega
  simp [fmtF, h0, hne, show ¬ 0 < dp by omega]

theorem isDigit_zero_char : ('0').isDigit = true := by decide

theorem isDigit_of_mem_replicate {n : ℕ} : ∀ x ∈ List.replicate n '0', x.isDigit = true := by
  intro x hx
  rw [List.eq_of_mem_replicate hx]
  exact isDigit_zero_char

/-- `%f` text reads back as the decimal it prints. -/
theorem parseNumber_fmtF (neg : Bool) (hd : d.isDigit = true) (hd0 : d ≠ '0')
    (hrest : ∀ x ∈ rest, x.isDigit = true) (dp : ℤ) :
    ∃ c k, parseNumber (String.ofList ((if neg then ['-'] else []) ++ fmtF (d :: rest) dp)) =
        some (neg, c, k) ∧
      (c : ℚ) * 10 ^ k = digitsValue (d :: rest) * 10 ^ (dp - (rest.length + 1 : ℕ)) := by
  have hne : d :: rest ≠ [] := List.cons_ne_nil _ _
  have hpoint : ∀ l c r, '.' :: l = c :: r → c.isDigit = false := by
    rintro l c r ⟨⟩
    decide
  have hbody : ∀ l r, d :: l ≠ '-' :: r := by
    rintro l r h
    rw [(List.cons_eq_cons.mp h).1] at hd
    exact absurd hd (by decide)
  have hlen : (d :: rest).length = rest.length + 1 := rfl
  rcases le_or_gt ((rest.length + 1 : ℕ) : ℤ) dp with hbig | hsmall
  · -- no fraction: the digits, then zeros up to the point
    set Z := List.replicate (dp.toNat - (rest.length + 1)) '0'
    have hZ : ∀ x ∈ rest ++ Z, x.isDigit = true := by
      intro x hx
      rcases List.mem_append.mp hx with h | h
      · exact hrest x h
      · exact isDigit_of_mem_replicate x h
    have h1 := @intPart?_digits d (rest ++ Z) [] hd hd0 hZ (by simp)
    rw [List.append_nil] at h1
    have hp := parseNumber_of_parts neg (hbody _) h1 (fracPart?_of_ne (by simp)) rfl
    rw [fmtF_int hne (by rw [hlen]; exact hbig), List.cons_append]
    refine ⟨_, _, hp, ?_⟩
    rw [List.append_nil, ← List.cons_append, digitsValue_append, digitsValue_replicate_zero,
      List.length_replicate]
    simp only [List.length_nil, Nat.cast_zero, sub_zero, zpow_zero, mul_one, add_zero]
    push_cast
    rw [← zpow_natCast]
    congr 2
    omega
  rcases lt_or_ge 0 dp with hpos | hneg
  · -- the point inside the digits
    obtain ⟨p, hp⟩ : ∃ p, dp.toNat = p + 1 := ⟨dp.toNat - 1, by omega⟩
    have hmid := @fmtF_mid (d :: rest) dp hpos (by rw [hlen]; exact_mod_cast hsmall)
    rw [hp, List.take_succ_cons, List.drop_succ_cons] at hmid
    have htake : ∀ x ∈ rest.take p, x.isDigit = true := fun x hx => hrest x (List.mem_of_mem_take hx)
    have hdrop : ∀ x ∈ rest.drop p, x.isDigit = true := fun x hx => hrest x (List.mem_of_mem_drop hx)
    have hdne : rest.drop p ≠ [] := by
      rw [ne_eq, List.drop_eq_nil_iff]
      omega
    have h1 := @intPart?_digits d (rest.take p) ('.' :: rest.drop p) hd hd0 htake (hpoint _)
    have h2 := @fracPart?_point (rest.drop p) [] hdne hdrop (by simp)
    rw [List.append_nil] at h2
    have hpar := parseNumber_of_parts neg (hbody _) h1 h2 rfl
    rw [hmid, List.cons_append]
    refine ⟨_, _, hpar, ?_⟩
    rw [List.cons_append, List.take_append_drop, List.length_drop]
    congr 2
    omega
  · -- the point before the digits, with zeros after it
    set Z := List.replicate (-dp).toNat '0'
    have hZ : ∀ x ∈ Z ++ d :: rest, x.isDigit = true := by
      intro x hx
      rcases List.mem_append.mp hx with h | h
      · exact isDigit_of_mem_replicate x h
      · rcases List.mem_cons.mp h with rfl | h
        · exact hd
        · exact hrest x h
    have h2 := @fracPart?_point (Z ++ d :: rest) [] (by simp) hZ (by simp)
    rw [List.append_nil] at h2
    have hpar := parseNumber_of_parts neg (by simp) (intPart?_zero _) h2 rfl
    rw [fmtF_small hne hneg]
    refine ⟨_, _, hpar, ?_⟩
    rw [← List.append_assoc, digitsValue_append, digitsValue_append, digitsValue_replicate_zero,
      List.length_append, List.length_replicate]
    have h0 : digitsValue ['0'] = 0 := rfl
    rw [h0]
    simp only [zero_mul, zero_add, List.length_cons]
    congr 2
    push_cast
    omega

/-! ### `%e` -/

/-- The clean-up drops the zero of a two-digit negative exponent `e-0d` and
    changes nothing else. -/
theorem cleanExp_exp {m ed : List Char} {sg : Char} (hdig : ∀ x ∈ ed, x.isDigit = true)
    (hlen : 2 ≤ ed.length) :
    ∃ ed', cleanExp (m ++ 'e' :: sg :: ed) = m ++ 'e' :: sg :: ed' ∧ ed' ≠ [] ∧
      (∀ x ∈ ed', x.isDigit = true) ∧ digitsValue ed' = digitsValue ed := by
  -- the exponent's digits, the last one first
  obtain ⟨a, b, t, ht⟩ : ∃ a b t, ed.reverse = a :: b :: t := by
    match h : ed.reverse with
    | a :: b :: t => exact ⟨a, b, t, rfl⟩
    | [] =>
      have hl := congrArg List.length h
      rw [List.length_reverse] at hl
      simp only [List.length_nil] at hl
      omega
    | [a] =>
      have hl := congrArg List.length h
      rw [List.length_reverse] at hl
      simp only [List.length_singleton] at hl
      omega
  have hrev : (m ++ 'e' :: sg :: ed).reverse = a :: b :: (t ++ sg :: 'e' :: m.reverse) := by
    simp [List.reverse_append, ht]
  have hkeep : (∀ x r, a :: b :: (t ++ sg :: 'e' :: m.reverse) ≠ x :: '0' :: '-' :: 'e' :: r) →
      cleanExp (m ++ 'e' :: sg :: ed) = m ++ 'e' :: sg :: ed := by
    intro hno
    unfold cleanExp
    rw [hrev]
    split
    · rename_i x r heq
      exact absurd heq (hno x r)
    · rfl
  have hed : ed = (a :: b :: t).reverse := by rw [← ht, List.reverse_reverse]
  cases t with
  | nil =>
    -- two digits, `ed = [b, a]`
    by_cases hz : b = '0' ∧ sg = '-'
    · obtain ⟨rfl, rfl⟩ := hz
      refine ⟨[a], ?_, List.cons_ne_nil _ _, fun x hx => hdig x ?_, ?_⟩
      · unfold cleanExp
        rw [hrev]
        simp
      · rw [hed, List.mem_singleton.mp hx]
        simp
      · rw [hed]
        rfl
    · refine ⟨ed, hkeep ?_, by rw [hed]; simp, hdig, rfl⟩
      intro x r h
      simp only [List.nil_append, List.cons.injEq] at h
      exact hz ⟨h.2.1, h.2.2.1⟩
  | cons c t =>
    -- three digits or more: the third from the end is a digit, not `-`
    refine ⟨ed, hkeep ?_, by rw [hed]; simp, hdig, rfl⟩
    intro x r h
    simp only [List.cons_append, List.cons.injEq] at h
    have hc : c.isDigit = true := hdig c (by rw [hed]; simp)
    rw [h.2.2.1] at hc
    exact absurd hc (by decide)

/-- The exponent digits `fmtE` prints: at least two, reading as the exponent's size. -/
theorem fmtE_expDigits (n : ℕ) :
    2 ≤ (if n < 10 then '0' :: Nat.toDigits 10 n else Nat.toDigits 10 n).length ∧
      (∀ x ∈ (if n < 10 then '0' :: Nat.toDigits 10 n else Nat.toDigits 10 n), x.isDigit = true) ∧
      digitsValue (if n < 10 then '0' :: Nat.toDigits 10 n else Nat.toDigits 10 n) = n := by
  have hdig : ∀ x ∈ Nat.toDigits 10 n, x.isDigit = true := fun x hx =>
    Nat.isDigit_of_mem_toDigits (by norm_num) (by norm_num) hx
  have hne : (Nat.toDigits 10 n).length ≠ 0 := by
    rw [ne_eq, List.length_eq_zero_iff]
    exact Nat.toDigits_ne_nil
  split
  · rename_i hlt
    refine ⟨by simp; omega, ?_, ?_⟩
    · intro x hx
      rcases List.mem_cons.mp hx with rfl | h
      · exact isDigit_zero_char
      · exact hdig x h
    · have h0 : digitsValue ['0'] = 0 := rfl
      rw [show '0' :: Nat.toDigits 10 n = ['0'] ++ Nat.toDigits 10 n from rfl, digitsValue_append,
        digitsValue_toDigits, h0, zero_mul, zero_add]
  · rename_i hge
    refine ⟨?_, hdig, digitsValue_toDigits n⟩
    rw [Nat.toDigits_eq_if (by norm_num), if_neg hge, List.length_append]
    have : (Nat.toDigits 10 (n / 10)).length ≠ 0 := by
      rw [ne_eq, List.length_eq_zero_iff]
      exact Nat.toDigits_ne_nil
    simp
    omega

/-- `%e` text, cleaned up, reads back as the decimal it prints. -/
theorem parseNumber_fmtE (neg : Bool) (hd : d.isDigit = true) (hd0 : d ≠ '0')
    (hrest : ∀ x ∈ rest, x.isDigit = true) (dp : ℤ) :
    ∃ c k, parseNumber (String.ofList ((if neg then ['-'] else []) ++ cleanExp (fmtE (d :: rest) dp))) =
        some (neg, c, k) ∧
      (c : ℚ) * 10 ^ k = digitsValue (d :: rest) * 10 ^ (dp - (rest.length + 1 : ℕ)) := by
  have hbody : ∀ l r, d :: l ≠ '-' :: r := by
    rintro l r h
    rw [(List.cons_eq_cons.mp h).1] at hd
    exact absurd hd (by decide)
  have hnotdig : ∀ l c r, 'e' :: l = c :: r → c.isDigit = false := by
    rintro l c r ⟨⟩
    decide
  set sg : Char := if dp - 1 < 0 then '-' else '+' with hsg
  obtain ⟨hlen, hdig, hval⟩ := fmtE_expDigits (dp - 1).natAbs
  set E := if (dp - 1).natAbs < 10 then '0' :: Nat.toDigits 10 (dp - 1).natAbs
    else Nat.toDigits 10 (dp - 1).natAbs with hE
  -- whatever the clean-up leaves of the exponent reads as `dp - 1`
  have hexp : ∀ ed', ed' ≠ [] → (∀ x ∈ ed', x.isDigit = true) → digitsValue ed' = digitsValue E →
      expPart? ('e' :: sg :: ed') = some (dp - 1, []) := by
    intro ed' hne' hdig' hval'
    rw [expPart?_sign (by rw [hsg]; split <;> simp) hne' hdig', hval', hval]
    by_cases hneg : dp - 1 < 0
    · have hs : sg = '-' := by rw [hsg, if_pos hneg]
      rw [if_pos hs]
      congr 2
      omega
    · have hs : sg ≠ '-' := by rw [hsg, if_neg hneg]; decide
      rw [if_neg hs]
      congr 2
      omega
  cases rest with
  | nil =>
    have hfmt : fmtE [d] dp = [d] ++ 'e' :: sg :: E := by
      unfold fmtE
      simp only [List.cons_append, List.nil_append, hsg, hE]
    obtain ⟨ed', hclean, hne', hdig', hval'⟩ := @cleanExp_exp [d] E sg hdig hlen
    have h1 := @intPart?_digits d [] ('e' :: sg :: ed') hd hd0 (by simp) (hnotdig _)
    have hpar := parseNumber_of_parts neg (hbody _) h1 (fracPart?_of_ne (by simp))
      (hexp ed' hne' hdig' hval')
    rw [hfmt, hclean]
    refine ⟨_, _, hpar, ?_⟩
    simp
  | cons r rs =>
    have hfmt : fmtE (d :: r :: rs) dp = (d :: '.' :: r :: rs) ++ 'e' :: sg :: E := by
      unfold fmtE
      simp only [List.append_assoc, List.cons_append, List.nil_append, hsg, hE]
    obtain ⟨ed', hclean, hne', hdig', hval'⟩ := @cleanExp_exp (d :: '.' :: r :: rs) E sg hdig hlen
    have h1 := @intPart?_digits d [] ('.' :: (r :: rs ++ 'e' :: sg :: ed')) hd hd0 (by simp)
      (by rintro c l ⟨⟩; decide)
    have h2 := @fracPart?_point (r :: rs) ('e' :: sg :: ed') (List.cons_ne_nil _ _) hrest (hnotdig _)
    have hpar := parseNumber_of_parts neg (hbody _) h1 h2 (hexp ed' hne' hdig' hval')
    rw [hfmt, hclean]
    refine ⟨_, _, hpar, ?_⟩
    simp only [List.singleton_append, List.length_cons]
    congr 2
    push_cast
    ring

end Text

/-! ## The round trip -/

namespace Float64

theorem ofDecimal_neg (neg : Bool) (c : ℕ) (k : ℤ) :
    ofDecimal neg c k = (ofDecimal false c k).map fun g => { g with neg := neg } := by
  unfold ofDecimal
  split <;> exact ofRatio_neg _ _ _

/-- A `float64` without a significand is a zero. -/
theorem eq_zero_of_mant (f : Float64) (h : f.mant = 0) : f = zero f.neg := by
  have hb : f.bexp.val = 0 := by
    by_contra hne
    simp [mant, hne] at h
  have hfr : f.frac.val = 0 := by simpa [mant, hb] using h
  cases f
  simp only [zero, mk.injEq, true_and]
  exact ⟨Fin.ext hb, Fin.ext hfr⟩

/-- The text of a zero, `0` or `-0`, reads back as that zero. -/
theorem parseFloat_zero_text (neg : Bool) :
    parseFloat (String.ofList ((if neg then ['-'] else []) ++ ['0'])) = some (zero neg) := by
  have hp := parseNumber_of_parts neg (by simp) (intPart?_zero [])
    (fracPart?_of_ne (by simp)) rfl
  simp only [parseFloat, hp, Option.bind_eq_bind, Option.bind_some]
  simp [ofDecimal, ofRatio, digitsValue]

/-- Decimal text of the value of `f`'s shortest decimal reads back as `f`. -/
theorem parseFloat_of_value {f : Float64} (hf : 0 < f.mant) {s : String} {c' : ℕ} {k' : ℤ}
    (hp : parseNumber s = some (f.neg, c', k'))
    (hv : (c' : ℚ) * 10 ^ k' = f.shortest.1 * 10 ^ f.shortest.2) : parseFloat s = some f := by
  simp only [parseFloat, hp, Option.bind_eq_bind, Option.bind_some]
  rw [ofDecimal_congr hv, ofDecimal_neg, shortest_spec hf]
  cases f
  rfl

end Float64

/-- The text `json.Marshal` prints for a `float64` reads back as the same
    `float64`. -/
theorem parseFloat_formatFloat (f : Float64) : parseFloat (formatFloat f) = some f := by
  unfold formatFloat
  by_cases h0 : f.mant = 0
  · rw [if_pos h0, Float64.parseFloat_zero_text, ← f.eq_zero_of_mant h0]
  rw [if_neg h0]
  have hf : 0 < f.mant := Nat.pos_of_ne_zero h0
  -- the shortest decimal is not zero, since it reads back as `|f|`
  have hc : 0 < f.shortest.1 := by
    by_contra hc
    have hs := Float64.shortest_spec hf
    rw [Nat.eq_zero_of_not_pos hc] at hs
    have hz : Float64.ofDecimal false 0 f.shortest.2 = some (Float64.zero false) := by
      unfold Float64.ofDecimal
      split <;> simp [Float64.ofRatio]
    rw [hz, Option.some.injEq] at hs
    have hm := congrArg Float64.mant hs
    have h1 : (Float64.zero false).mant = 0 := rfl
    have h2 : f.abs.mant = f.mant := rfl
    rw [h1, h2] at hm
    exact h0 hm.symm
  obtain ⟨d, rest, hds, hd, hd0, hrest, hval⟩ := decimalDigits_spec hc f.shortest.2
  generalize hdd : decimalDigits f.shortest.1 f.shortest.2 = p at hds hval
  obtain ⟨ds, dp⟩ := p
  dsimp only at hds hval ⊢
  subst hds
  split
  · obtain ⟨c', k', hp, hv⟩ := parseNumber_fmtE f.neg hd hd0 hrest dp
    exact Float64.parseFloat_of_value hf hp (hv.trans hval)
  · obtain ⟨c', k', hp, hv⟩ := parseNumber_fmtF f.neg hd hd0 hrest dp
    exact Float64.parseFloat_of_value hf hp (hv.trans hval)

end Proxyd.Go
