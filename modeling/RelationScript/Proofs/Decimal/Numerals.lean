/-
# Numerals

A numeral writes a number with the digits before a point and those behind it, however many there
are.  Decimals have room for some digits only, but a numeral of a number that any decimal stands
for is read as exactly that number: the digits that do not fit any more are zeros.

* `Numeral`, `Numeral.value` : numerals without an exponent, and the numbers they write;
* `Decimal.digitsValue_eq_zero_of_full` : what is left of a fraction when a digit does not fit;
* `Decimal.takeFraction_exact` : a fraction is taken without rounding;
* `Numeral.exists_read` : numerals are read exactly;
* `Decimal.numeral` : the numeral that a decimal is written as.
-/
import RelationScript.Proofs.Decimal.Writing

namespace RelationScript

/-! ## Digits -/

namespace Text

/-- A digit is worth less than ten. -/
theorem digitValue_lt {c : Char} (h : c.isDigit = true) : digitValue c < 10 := by
  have hrange := toNat_of_isDigit h
  show c.toNat - 48 < 10
  omega

/-- Digits write less than the power of ten that follows. -/
theorem digitsValue_lt {cs : List Char} (h : ∀ c ∈ cs, c.isDigit = true) :
    digitsValue cs < tenTo cs.length := by
  induction cs with
  | nil => exact Nat.one_pos
  | cons c cs ih =>
    rw [List.forall_mem_cons] at h
    have hdigit := digitValue_lt h.1
    have hle : digitValue c * tenTo cs.length ≤ 9 * tenTo cs.length :=
      Nat.mul_le_mul_right _ (by omega)
    have hrest := ih h.2
    rw [digitsValue_cons, List.length_cons, tenTo_succ]
    omega

/-- The digits of a positive number do not begin with a zero. -/
theorem head?_toDigits_ne_zero {n : ℕ} (h : 0 < n) : (Nat.toDigits 10 n).head? ≠ some '0' := by
  induction n using Nat.strong_induction_on with
  | _ n ih =>
    by_cases hlt : n < 10
    · rw [Nat.toDigits_of_lt_base hlt, List.head?_cons]
      intro hzero
      have hn : n = 0 := Nat.digitChar_eq_zero.mp (Option.some.inj hzero)
      omega
    · rw [Nat.toDigits_of_base_le (by decide) (by omega),
        List.head?_append_of_ne_nil _ Nat.toDigits_ne_nil]
      exact ih (n / 10) (by omega) (by omega)

/-- The digits of a number start with a zero for zero only. -/
theorem leading_toDigits (n : ℕ) :
    Nat.toDigits 10 n = ['0'] ∨ (Nat.toDigits 10 n).head? ≠ some '0' := by
  rcases Nat.eq_zero_or_pos n with rfl | h
  · exact Or.inl rfl
  · exact Or.inr (head?_toDigits_ne_zero h)

end Text

/-! ## Numerals -/

/-- A number in writing: an optional minus sign, digits, and behind a point digits or none.  No zero
stands before other digits of the whole part. -/
structure Numeral where
  /-- Whether there is a minus sign. -/
  negative : Bool
  /-- The digits before the point. -/
  whole : List Char
  /-- The digits behind the point; without them there is no point. -/
  fraction : List Char
  isDigits_whole : Text.IsDigits whole
  leading : whole = ['0'] ∨ whole.head? ≠ some '0'
  isDigit_fraction : ∀ c ∈ fraction, c.isDigit = true

namespace Numeral

/-- The digits with the point, if there is one. -/
def digits (n : Numeral) : List Char :=
  n.whole ++ if n.fraction = [] then [] else '.' :: n.fraction

/-- The characters of the numeral. -/
def chars (n : Numeral) : List Char :=
  if n.negative then '-' :: n.digits else n.digits

/-- The numeral as a string. -/
def text (n : Numeral) : String :=
  String.ofList n.chars

/-- All digits, read as one natural number. -/
def magnitude (n : Numeral) : ℕ :=
  Text.digitsValue (n.whole ++ n.fraction)

/-- The number that the numeral writes. -/
def value (n : Numeral) : ℚ :=
  (if n.negative then -(n.magnitude : ℤ) else n.magnitude : ℤ) / 10 ^ n.fraction.length

variable (n : Numeral)

@[simp] theorem toList_text : n.text.toList = n.chars :=
  String.toList_ofList

theorem magnitude_eq :
    n.magnitude =
      Text.digitsValue n.whole * Text.tenTo n.fraction.length + Text.digitsValue n.fraction :=
  Text.digitsValue_append n.whole n.fraction

/-- The digits of a numeral are a number without a sign. -/
theorem isUnsigned_digits : Token.IsUnsigned n.digits := by
  unfold digits
  by_cases h : n.fraction = []
  · rw [if_pos h, List.append_nil]
    exact .whole n.isDigits_whole
  · rw [if_neg h]
    exact .fraction n.isDigits_whole ⟨h, n.isDigit_fraction⟩

/-- Scripts have the numerals of JSON, and more. -/
theorem isNumeral_chars : Token.IsNumeral n.chars := by
  unfold chars
  cases n.negative with
  | true => exact .negative n.isUnsigned_digits
  | false => exact .unsigned n.isUnsigned_digits

end Numeral

/-! ## Reading without rounding -/

namespace Decimal

/-- Where the next digit of a fraction does not fit, and the number has room in a decimal with the
mantissa `M` and the scale `S`, only zeros are left. -/
theorem digitsValue_eq_zero_of_full {c : Char} {cs : List Char}
    (hdigits : ∀ d ∈ c :: cs, d.isDigit = true) {m s M S : ℕ} (hM : M < bound) (hS : S ≤ 28)
    (hvalue : (m * Text.tenTo (c :: cs).length + Text.digitsValue (c :: cs)) * Text.tenTo S =
      M * Text.tenTo (s + (c :: cs).length))
    (hfull : ¬ (s < 28 ∧ m * 10 + Text.digitValue c < bound)) :
    Text.digitsValue (c :: cs) = 0 := by
  have hscale : S ≤ s := by
    by_cases hs : s < 28
    · -- With the digit the mantissa would outgrow its bound, but `M` does not.
      have hbound : bound ≤ m * 10 + Text.digitValue c := by
        by_contra hlt
        exact hfull ⟨hs, Nat.lt_of_not_le hlt⟩
      have hlt : bound * 10 ^ (cs.length + S) < bound * 10 ^ (s + cs.length + 1) := by
        calc bound * 10 ^ (cs.length + S)
            ≤ (m * 10 + Text.digitValue c) * 10 ^ (cs.length + S) :=
              Nat.mul_le_mul_right _ hbound
          _ ≤ ((m * 10 + Text.digitValue c) * Text.tenTo cs.length + Text.digitsValue cs) *
                Text.tenTo S := by
              rw [pow_add, ← mul_assoc, Text.tenTo_eq_pow, Text.tenTo_eq_pow]
              exact Nat.mul_le_mul_right _ (Nat.le_add_right _ _)
          _ = M * 10 ^ (s + cs.length + 1) := by
              rw [← Text.mul_tenTo_add_digitsValue_cons, hvalue, Text.tenTo_eq_pow]
              rfl
          _ < bound * 10 ^ (s + cs.length + 1) := Nat.mul_lt_mul_of_pos_right hM (by positivity)
      have hpow := (Nat.pow_lt_pow_iff_right (by decide)).mp (Nat.lt_of_mul_lt_mul_left hlt)
      omega
    · omega
  -- So the digits left are a multiple of the power of ten that they are below.
  obtain ⟨k, rfl⟩ := Nat.exists_eq_add_of_le hscale
  have hsum : m * Text.tenTo (c :: cs).length + Text.digitsValue (c :: cs) =
      M * Text.tenTo k * Text.tenTo (c :: cs).length := by
    apply Nat.eq_of_mul_eq_mul_right (Text.tenTo_pos S)
    rw [hvalue]
    simp only [Text.tenTo_eq_pow]
    ring
  have hdvd : Text.tenTo (c :: cs).length ∣ Text.digitsValue (c :: cs) :=
    (Nat.dvd_add_right (Nat.dvd_mul_left _ m)).mp (hsum ▸ Nat.dvd_mul_left _ _)
  exact Nat.eq_zero_of_dvd_of_lt hdvd (Text.digitsValue_lt hdigits)

/-- **A fraction is taken without rounding**, if the number has room in a decimal at all: here in
one with the mantissa `M` and the scale `S`. -/
theorem takeFraction_exact (negative : Bool) {cs : List Char}
    (hdigits : ∀ c ∈ cs, c.isDigit = true) {m s M S : ℕ} (hm : m < bound) (hs : s ≤ 28)
    (hM : M < bound) (hS : S ≤ 28)
    (hvalue : (m * Text.tenTo cs.length + Text.digitsValue cs) * Text.tenTo S =
      M * Text.tenTo (s + cs.length)) :
    ∃ m' s' hm' hs', takeFraction negative cs m s hm hs = .ok (signed negative m' s' hm' hs') ∧
      m' * Text.tenTo (s + cs.length) =
        (m * Text.tenTo cs.length + Text.digitsValue cs) * Text.tenTo s' := by
  induction cs generalizing m s with
  | nil =>
    refine ⟨m, s, hm, hs, rfl, ?_⟩
    show m * Text.tenTo s = (m * 1 + 0) * Text.tenTo s
    rw [Nat.mul_one, Nat.add_zero]
  | cons c cs ih =>
    unfold takeFraction
    by_cases hnext : s < 28 ∧ m * 10 + Text.digitValue c < bound
    · have hlength : s + (c :: cs).length = s + 1 + cs.length := by
        rw [List.length_cons]
        omega
      rw [dif_pos hnext, Text.mul_tenTo_add_digitsValue_cons, hlength]
      rw [Text.mul_tenTo_add_digitsValue_cons, hlength] at hvalue
      exact ih (List.forall_mem_cons.mp hdigits).2 hnext.2 hnext.1 hvalue
    · -- The first digit left out is a zero, so nothing is rounded.
      have hzero := digitsValue_eq_zero_of_full hdigits hM hS hvalue hnext
      have hdigit : Text.digitValue c = 0 := by
        rw [Text.digitsValue_cons, Nat.add_eq_zero_iff] at hzero
        have hpos := Text.tenTo_pos cs.length
        exact (Nat.mul_eq_zero.mp hzero.1).resolve_right (by omega)
      refine ⟨m, s, hm, hs, ?_, ?_⟩
      · rw [dif_neg hnext, hdigit]
        rfl
      · rw [hzero, Nat.add_zero]
        simp only [Text.tenTo_eq_pow]
        ring

/-- Decimals have room for whole numbers of 96 bits, divided by powers of ten up to the 28th. -/
theorem exists_value_eq {m : ℤ} {s : ℕ} (hm : |m| < 2 ^ 96) (hs : s ≤ 28) :
    ∃ d : Decimal, d.value = m / 10 ^ s := by
  have hbound : m.natAbs < bound := by
    rw [Int.abs_eq_natAbs] at hm
    unfold bound
    omega
  refine ⟨⟨decide (m < 0), m.natAbs, s, hbound, hs⟩, ?_⟩
  have hsigned : signedMantissa ⟨decide (m < 0), m.natAbs, s, hbound, hs⟩ = m := by
    unfold signedMantissa
    dsimp only
    by_cases hneg : m < 0
    · rw [if_pos (decide_eq_true hneg)]
      omega
    · rw [if_neg (by simpa using hneg)]
      omega
  rw [value, hsigned]

/-- The mantissa `m` and the scale `s` make the number that `n` in units of `10 ^ (-k)` is. -/
theorem value_signed {negative : Bool} {m s n k : ℕ} (hm : m < bound) (hs : s ≤ 28)
    (h : m * Text.tenTo k = n * Text.tenTo s) :
    (signed negative m s hm hs).value = (if negative then -(n : ℤ) else n : ℤ) / 10 ^ k := by
  have hne : ∀ k : ℕ, (10 : ℚ) ^ k ≠ 0 := fun k => pow_ne_zero k (by norm_num)
  have hcast : (m : ℚ) * 10 ^ k = n * 10 ^ s := by
    rw [← cast_tenTo, ← cast_tenTo]
    exact_mod_cast h
  rw [value, signedMantissa_signed]
  show _ / 10 ^ s = _
  rw [div_eq_div_iff (hne s) (hne k)]
  cases negative <;> simp [hcast]

/-- The digits on both sides of a point are read exactly, if a decimal has room for their number. -/
theorem ofDigits_exact (negative : Bool) {whole fraction : List Char}
    (hfraction : ∀ c ∈ fraction, c.isDigit = true) {M S : ℕ} (hM : M < bound) (hS : S ≤ 28)
    (hvalue : Text.digitsValue (whole ++ fraction) * Text.tenTo S =
      M * Text.tenTo fraction.length) :
    ∃ m s hm hs, ofDigits negative whole fraction = .ok (signed negative m s hm hs) ∧
      m * Text.tenTo fraction.length = Text.digitsValue (whole ++ fraction) * Text.tenTo s := by
  rw [Text.digitsValue_append] at hvalue ⊢
  have hwhole : Text.digitsValue whole < bound := by
    refine Nat.lt_of_le_of_lt ?_ hM
    apply Nat.le_of_mul_le_mul_right _ (Text.tenTo_pos fraction.length)
    rw [← hvalue]
    exact (Nat.le_add_right _ _).trans (Nat.le_mul_of_pos_right _ (Text.tenTo_pos S))
  unfold ofDigits
  rw [dif_pos hwhole]
  have htaken := takeFraction_exact negative hfraction hwhole zero_le_maxScale hM hS
    (by rwa [Nat.zero_add])
  rwa [Nat.zero_add] at htaken

end Decimal

namespace Numeral

variable (n : Numeral)

/-- Reading a numeral is reading its sign, its whole part and its fraction. -/
theorem read_chars : Decimal.read n.chars = Decimal.ofDigits n.negative n.whole n.fraction := by
  have hunsigned : ∀ negative, Decimal.readUnsigned negative n.digits =
      Decimal.ofDigits negative n.whole n.fraction := by
    intro negative
    exact Decimal.readUnsigned_parts negative n.isDigits_whole n.isDigit_fraction
  unfold chars
  cases n.negative with
  | true => exact hunsigned true
  | false =>
    obtain ⟨c, cs, hdigits, hc⟩ := n.isUnsigned_digits.exists_cons
    rw [if_neg Bool.false_ne_true, ← hunsigned, hdigits]
    exact Decimal.read_of_isDigit hc cs

/-- **Numerals are read exactly**, however many digits they have, if any decimal stands for the
number. -/
theorem exists_read {n : Numeral} {e : Decimal} (h : n.value = e.value) :
    ∃ d, Decimal.read n.chars = .ok d ∧ d.value = n.value := by
  have hne : ∀ k : ℕ, (10 : ℚ) ^ k ≠ 0 := fun k => pow_ne_zero k (by norm_num)
  -- Both sides count the number in their units, and the signs are left out.
  have hmagnitude : n.magnitude * Text.tenTo e.scale =
      e.mantissa * Text.tenTo n.fraction.length := by
    rw [value, Decimal.value, div_eq_div_iff (hne _) (hne _)] at h
    have habs := congrArg Int.natAbs (by exact_mod_cast h :
      (if n.negative then -(n.magnitude : ℤ) else n.magnitude : ℤ) * 10 ^ e.scale =
        e.signedMantissa * 10 ^ n.fraction.length)
    rw [Int.natAbs_mul, Int.natAbs_mul, Decimal.natAbs_signedMantissa, Int.natAbs_pow,
      Int.natAbs_pow] at habs
    rw [Text.tenTo_eq_pow, Text.tenTo_eq_pow]
    split at habs <;> simpa using habs
  obtain ⟨m, s, hm, hs, hread, hexact⟩ := Decimal.ofDigits_exact n.negative n.isDigit_fraction
    e.mantissa_lt e.scale_le hmagnitude
  exact ⟨_, n.read_chars.trans hread, Decimal.value_signed hm hs hexact⟩

end Numeral

/-! ## Decimals as numerals -/

namespace Decimal

/-- The numeral that a decimal is written as, with all digits of its scale. -/
def numeral (d : Decimal) : Numeral where
  negative := d.negative
  whole := Nat.toDigits 10 (d.mantissa / Text.tenTo d.scale)
  fraction := Text.fixedDigits d.scale (d.mantissa % Text.tenTo d.scale)
  isDigits_whole := Text.isDigits_toDigits _
  leading := Text.leading_toDigits _
  isDigit_fraction := fun _ => Text.isDigit_of_mem_fixedDigits

variable (d : Decimal)

/-- The numeral of a number is written as the number is. -/
theorem chars_numeral : d.numeral.chars = d.chars := by
  have hdigits : d.numeral.digits = d.digits := by
    unfold Numeral.digits digits
    by_cases h : d.scale = 0
    · rw [if_pos h, if_pos]
      · rfl
      · exact List.length_eq_zero_iff.mp ((Text.length_fixedDigits _ _).trans h)
    · rw [if_neg h, if_neg]
      · rfl
      · exact (Text.isDigits_fixedDigits _ (Nat.pos_of_ne_zero h)).1
  unfold Numeral.chars chars
  rw [hdigits]
  rfl

theorem magnitude_numeral : d.numeral.magnitude = d.mantissa := by
  rw [Numeral.magnitude_eq]
  exact d.digitsValue_parts

@[simp] theorem text_numeral : d.numeral.text = d.text := by
  unfold Numeral.text text
  rw [chars_numeral]

/-- A decimal is written as a numeral of its value. -/
theorem value_numeral : d.numeral.value = d.value := by
  unfold Numeral.value value signedMantissa
  rw [magnitude_numeral]
  show _ / 10 ^ (Text.fixedDigits _ _).length = _
  rw [Text.length_fixedDigits]
  rfl

end Decimal

end RelationScript
