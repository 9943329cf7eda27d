/-
# Values of decimals

A decimal stands for a rational number, and many decimals can stand for the same one.  They
compare by these numbers, and the normal form chooses one decimal for each.

* `Decimal.value` : the number that a decimal stands for;
* `Decimal.compareValue_eq` : decimals compare by value;
* `Decimal.normalize_eq_iff` : a normal form for each value;
* `Decimal.integer?_eq_some_iff` : the decimals that are integers.
-/
import Mathlib
import RelationScript.Decimal.Basic

namespace RelationScript.Decimal

/-- The number that a decimal stands for. -/
def value (d : Decimal) : ℚ :=
  d.signedMantissa / 10 ^ d.scale

theorem cast_tenTo (k : ℕ) : ((Text.tenTo k : ℕ) : ℚ) = 10 ^ k := by
  induction k with
  | zero => simp
  | succ k ih =>
    rw [Text.tenTo_succ, Nat.cast_mul, ih, pow_succ]
    norm_num

/-! ## Comparison -/

/-- Units count the value in its smallest fraction. -/
theorem cast_units (d : Decimal) : (d.units : ℚ) = d.value * 10 ^ 28 := by
  have hsplit : (10 : ℚ) ^ 28 = 10 ^ (28 - d.scale) * 10 ^ d.scale := by
    rw [← pow_add, Nat.sub_add_cancel d.scale_le]
  have hne : (10 : ℚ) ^ d.scale ≠ 0 := pow_ne_zero _ (by norm_num)
  rw [units, value, Int.cast_mul, Int.cast_natCast, cast_tenTo, hsplit]
  field_simp

/-- Counting in the smallest units compares decimals by their values. -/
theorem units_eq_iff {a b : Decimal} : a.units = b.units ↔ a.value = b.value := by
  have hne : (10 : ℚ) ^ 28 ≠ 0 := by norm_num
  rw [← Int.cast_inj (α := ℚ), cast_units, cast_units, mul_left_inj' hne]

/-- **Decimals compare by value.** -/
theorem compareValue_eq (a b : Decimal) : a.compareValue b = compare a.value b.value := by
  have hpos : (0 : ℚ) < 10 ^ 28 := by norm_num
  have hlt : a.units < b.units ↔ a.value < b.value := by
    rw [← Int.cast_lt (R := ℚ), cast_units, cast_units, mul_lt_mul_iff_left₀ hpos]
  rw [compareValue]
  rcases lt_trichotomy a.value b.value with h | h | h
  · rw [compare_lt_iff_lt.mpr h, compare_lt_iff_lt.mpr (hlt.mpr h)]
  · rw [compare_eq_iff_eq.mpr h, compare_eq_iff_eq.mpr (units_eq_iff.mpr h)]
  · have hgt : b.units < a.units := by
      rwa [← Int.cast_lt (R := ℚ), cast_units, cast_units, mul_lt_mul_iff_left₀ hpos]
    rw [compare_gt_iff_gt.mpr h, compare_gt_iff_gt.mpr hgt]

/-! ## Normal forms -/

/-- No fraction ends with a zero, and zero has no sign. -/
structure Normal (d : Decimal) : Prop where
  stripped : d.scale = 0 ∨ d.mantissa % 10 ≠ 0
  unsigned : d.mantissa = 0 → d.negative = false

/-- Zeros are stripped until none is left at the end or the scale is zero. -/
theorem stripZeros_stripped (m s : ℕ) : (stripZeros m s).2 = 0 ∨ (stripZeros m s).1 % 10 ≠ 0 := by
  induction s generalizing m with
  | zero => exact Or.inl rfl
  | succ s ih =>
    rw [stripZeros]
    split
    next => exact ih (m / 10)
    next h => exact Or.inr h

/-- What is stripped are zeros. -/
theorem stripZeros_mantissa (m s : ℕ) :
    (stripZeros m s).1 * Text.tenTo (s - (stripZeros m s).2) = m := by
  induction s generalizing m with
  | zero => simp [stripZeros]
  | succ s ih =>
    rw [stripZeros]
    split
    next h =>
      have hle := stripZeros_scale_le (m / 10) s
      rw [Nat.sub_add_comm hle, Text.tenTo_succ, ← mul_assoc, ih]
      omega
    next => simp

/-- Normalizing a decimal leaves no zeros at the end of its fraction and no sign on a zero. -/
theorem normal_normalize (d : Decimal) : d.normalize.Normal where
  stripped := stripZeros_stripped d.mantissa d.scale
  unsigned := by
    intro h
    have hzero : (stripZeros d.mantissa d.scale).1 = 0 := h
    simp [normalize, signed, hzero]

theorem signedMantissa_signed {negative : Bool} {m s : ℕ} (hm : m < bound) (hs : s ≤ 28) :
    (signed negative m s hm hs).signedMantissa = if negative then -(m : ℤ) else m := by
  rw [signedMantissa, signed]
  by_cases hzero : m = 0 <;> cases negative <;> simp [hzero]

/-- The normal form has the same value. -/
theorem value_normalize (d : Decimal) : d.normalize.value = d.value := by
  have hne : ∀ k : ℕ, (10 : ℚ) ^ k ≠ 0 := fun k => pow_ne_zero k (by norm_num)
  have hle := stripZeros_scale_le d.mantissa d.scale
  have hmantissa : (d.mantissa : ℚ) = (stripZeros d.mantissa d.scale).1 *
      10 ^ (d.scale - (stripZeros d.mantissa d.scale).2) := by
    rw [← cast_tenTo, ← Nat.cast_mul, stripZeros_mantissa]
  have hscale : (10 : ℚ) ^ d.scale = 10 ^ (d.scale - (stripZeros d.mantissa d.scale).2) *
      10 ^ (stripZeros d.mantissa d.scale).2 := by
    rw [← pow_add, Nat.sub_add_cancel hle]
  have hsigned : (d.signedMantissa : ℚ) = d.normalize.signedMantissa *
      10 ^ (d.scale - (stripZeros d.mantissa d.scale).2) := by
    rw [normalize, signedMantissa_signed, signedMantissa]
    cases d.negative <;> simp [hmantissa]
  rw [value, value, hsigned, hscale, mul_comm, mul_div_mul_left _ _ (hne _)]
  rfl

/-- Decimals of equal value have mantissas in proportion to their powers of ten. -/
theorem signedMantissa_mul_of_value_eq {a b : Decimal} (h : a.value = b.value) :
    a.signedMantissa * 10 ^ b.scale = b.signedMantissa * 10 ^ a.scale := by
  have hne : ∀ k : ℕ, (10 : ℚ) ^ k ≠ 0 := fun k => pow_ne_zero k (by norm_num)
  rw [value, value, div_eq_div_iff (hne _) (hne _)] at h
  exact_mod_cast h

theorem natAbs_signedMantissa (d : Decimal) : d.signedMantissa.natAbs = d.mantissa := by
  rw [signedMantissa]
  split <;> simp

/-- No decimal writes the value of a normal one with a smaller scale. -/
theorem Normal.scale_le_of_value_eq {a b : Decimal} (hb : b.Normal) (h : a.value = b.value) :
    b.scale ≤ a.scale := by
  by_contra hscale
  have hmul := congrArg Int.natAbs (signedMantissa_mul_of_value_eq h)
  obtain ⟨k, hk⟩ := Nat.exists_eq_add_of_lt (Nat.lt_of_not_le hscale)
  rw [Int.natAbs_mul, Int.natAbs_mul, natAbs_signedMantissa, natAbs_signedMantissa,
    Int.natAbs_pow, Int.natAbs_pow, hk, add_assoc, pow_add, mul_left_comm, mul_comm] at hmul
  -- The mantissa of the normal one would end with a zero of its fraction.
  have hmantissa : a.mantissa * 10 ^ (k + 1) = b.mantissa :=
    Nat.eq_of_mul_eq_mul_right (by positivity) hmul
  rcases hb.stripped with hzero | hstripped
  · omega
  · exact hstripped (by rw [← hmantissa, pow_succ, ← mul_assoc, Nat.mul_mod_left])

/-- A normal decimal has a sign just if its value does. -/
theorem Normal.negative_eq {d : Decimal} (h : d.Normal) :
    d.negative = decide (d.signedMantissa < 0) := by
  rw [signedMantissa]
  by_cases hzero : d.mantissa = 0
  · rw [h.unsigned hzero]
    simp
  · cases d.negative with
    | false => simp
    | true =>
      have hpos : 0 < d.mantissa := Nat.pos_of_ne_zero hzero
      simpa using hpos

/-- Normal decimals of equal value are the same. -/
theorem Normal.eq_of_value_eq {a b : Decimal} (ha : a.Normal) (hb : b.Normal)
    (h : a.value = b.value) : a = b := by
  have hscale : a.scale = b.scale :=
    le_antisymm (ha.scale_le_of_value_eq h.symm) (hb.scale_le_of_value_eq h)
  have hsigned : a.signedMantissa = b.signedMantissa := by
    have hmul := signedMantissa_mul_of_value_eq h
    rw [hscale] at hmul
    exact mul_right_cancel₀ (pow_ne_zero _ (by norm_num)) hmul
  have hmantissa : a.mantissa = b.mantissa := by
    rw [← natAbs_signedMantissa a, hsigned, natAbs_signedMantissa]
  have hnegative : a.negative = b.negative := by
    rw [ha.negative_eq, hb.negative_eq, hsigned]
  cases a
  cases b
  simp_all only

/-- **A normal form for each value.** -/
theorem normalize_eq_iff {a b : Decimal} : a.normalize = b.normalize ↔ a.value = b.value := by
  constructor
  · intro h
    rw [← value_normalize a, h, value_normalize]
  · intro h
    refine (normal_normalize a).eq_of_value_eq (normal_normalize b) ?_
    rw [value_normalize, value_normalize, h]

/-! ## Integers -/

/-- A decimal that is read as an integer has the value of this integer. -/
theorem value_of_integer? {d : Decimal} {i : ℤ} (h : d.integer? = some i) : d.value = i := by
  have hne : (10 : ℚ) ^ d.scale ≠ 0 := pow_ne_zero _ (by norm_num)
  rw [integer?] at h
  split at h
  next hmod =>
    have hmantissa : (d.mantissa : ℚ) = (d.mantissa / Text.tenTo d.scale : ℕ) * 10 ^ d.scale := by
      rw [← cast_tenTo, ← Nat.cast_mul, Nat.div_mul_cancel (Nat.dvd_of_mod_eq_zero hmod)]
    have hsigned : (d.signedMantissa : ℚ) = i * 10 ^ d.scale := by
      rw [← Option.some.inj h, signedMantissa]
      cases d.negative <;> simp only [hmantissa, Int.cast_neg, Int.cast_natCast, neg_mul,
        if_true, Bool.false_eq_true, if_false]
    rw [value, hsigned, mul_div_cancel_right₀ _ hne]
  next => simp at h

/-- **The integers among the decimals.** -/
theorem integer?_eq_some_iff {d : Decimal} {i : ℤ} : d.integer? = some i ↔ d.value = i := by
  refine ⟨value_of_integer?, fun h => ?_⟩
  have hne : (10 : ℚ) ^ d.scale ≠ 0 := pow_ne_zero _ (by norm_num)
  -- A whole value leaves no remainder, and then the integer found is the value.
  have hmod : d.mantissa % Text.tenTo d.scale = 0 := by
    rw [value, div_eq_iff hne, ← cast_tenTo] at h
    have hsigned : d.signedMantissa = i * (Text.tenTo d.scale : ℕ) := by exact_mod_cast h
    rw [← natAbs_signedMantissa, hsigned, Int.natAbs_mul, Int.natAbs_natCast, Nat.mul_mod_left]
  obtain ⟨j, hj⟩ : ∃ j, d.integer? = some j := by
    rw [integer?, if_pos hmod]
    exact ⟨_, rfl⟩
  rw [hj, Int.cast_inj.mp ((value_of_integer? hj).symm.trans h)]

theorem integer?_congr {a b : Decimal} (h : a.value = b.value) : a.integer? = b.integer? := by
  ext i
  rw [integer?_eq_some_iff, integer?_eq_some_iff, h]

end RelationScript.Decimal
