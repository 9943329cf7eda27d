/-
# Decimals are read as they are written

A decimal is written with all digits of its scale.  Read back, none of them is rounded off, since
their number and their value both are in bounds, so the decimal comes back as it was; only a zero
loses its sign.

* `Text.digitsValue_toDigits`, `Text.digitsValue_fixedDigits` : digits have the value they write;
* `Decimal.takeFraction_eq` : a fraction within the bounds is taken digit by digit;
* `Decimal.read_chars` : the decimal that the characters of a decimal write;
* `Decimal.chars_normalize_of_integer?` : an integer is written without a point.
-/
import RelationScript.Decimal.Scientific
import RelationScript.Proofs.Decimal.Value
import RelationScript.Proofs.Token.Spelling

namespace RelationScript

/-! ## Digits -/

namespace Text

theorem isDigit_of_mem_toDigits {n : ℕ} {c : Char} (h : c ∈ Nat.toDigits 10 n) :
    c.isDigit = true :=
  Nat.isDigit_of_mem_toDigits (by decide) (by decide) h

theorem isDigits_toDigits (n : ℕ) : IsDigits (Nat.toDigits 10 n) :=
  ⟨Nat.toDigits_ne_nil, fun _ => isDigit_of_mem_toDigits⟩

/-- Numbers of a fixed length are written in decimal digits. -/
theorem isDigit_of_mem_fixedDigits {w n : ℕ} {c : Char} (h : c ∈ fixedDigits w n) :
    c.isDigit = true := by
  induction w generalizing n with
  | zero => simp [fixedDigits] at h
  | succ w ih =>
    rw [fixedDigits, List.mem_append, List.mem_singleton] at h
    rcases h with h | rfl
    · exact ih h
    · rw [Nat.isDigit_digitChar, decide_eq_true_eq]
      exact Nat.mod_lt n (by decide)

/-- A run of at least one digit of a fixed width. -/
theorem isDigits_fixedDigits {w : ℕ} (n : ℕ) (hw : 0 < w) : IsDigits (fixedDigits w n) := by
  refine ⟨fun hnil => ?_, fun _ => isDigit_of_mem_fixedDigits⟩
  have hlength := congrArg List.length hnil
  rw [length_fixedDigits, List.length_nil] at hlength
  omega

theorem tenTo_eq_pow (k : ℕ) : tenTo k = 10 ^ k := by
  induction k with
  | zero => rfl
  | succ k ih => rw [tenTo_succ, ih, pow_succ]

/-- The digits in front count with the power of ten of those behind. -/
theorem digitsValue_append (cs ds : List Char) :
    digitsValue (cs ++ ds) = digitsValue cs * tenTo ds.length + digitsValue ds := by
  unfold digitsValue
  rw [Nat.ofDigitChars_append, Nat.ofDigitChars_eq_ofDigitChars_zero, tenTo_eq_pow, Nat.mul_comm]

/-- The first digit counts by its place. -/
theorem digitsValue_cons (c : Char) (cs : List Char) :
    digitsValue (c :: cs) = digitValue c * tenTo cs.length + digitsValue cs := by
  rw [← List.singleton_append, digitsValue_append]
  congr 2
  unfold digitsValue digitValue
  rw [Nat.ofDigitChars_cons, Nat.ofDigitChars_nil, Nat.mul_zero, Nat.zero_add]

/-- The first of the digits behind a mantissa can be taken into it. -/
theorem mul_tenTo_add_digitsValue_cons (m : ℕ) (c : Char) (cs : List Char) :
    m * tenTo (c :: cs).length + digitsValue (c :: cs) =
      (m * 10 + digitValue c) * tenTo cs.length + digitsValue cs := by
  rw [List.length_cons, tenTo_succ, digitsValue_cons]
  ring

/-- All digits of a number have its value. -/
theorem digitsValue_toDigits (n : ℕ) : digitsValue (Nat.toDigits 10 n) = n :=
  Nat.ofDigitChars_ten_toDigits

/-- Zeros in front change nothing. -/
theorem digitsValue_replicate_append (k : ℕ) (cs : List Char) :
    digitsValue (List.replicate k '0' ++ cs) = digitsValue cs := by
  unfold digitsValue
  rw [Nat.ofDigitChars_append, Nat.ofDigitChars_replicate_zero, Nat.mul_zero]

/-- As many digits as a number has, or more, have its value. -/
theorem digitsValue_fixedDigits {w n : ℕ} (h : n < tenTo w) :
    digitsValue (fixedDigits w n) = n := by
  induction w generalizing n with
  | zero =>
    rw [tenTo_zero] at h
    obtain rfl : n = 0 := by omega
    rfl
  | succ w ih =>
    rw [tenTo_succ] at h
    have hlast : digitsValue [Nat.digitChar (n % 10)] = n % 10 := by
      have hten : n % 10 < 10 := Nat.mod_lt n (by decide)
      rw [← Nat.toDigits_of_lt_base hten]
      exact digitsValue_toDigits (n % 10)
    rw [fixedDigits, digitsValue_append, ih (by omega), hlast, List.length_singleton, tenTo_succ,
      tenTo_zero]
    omega

end Text

namespace Decimal

/-! ## Fractions -/

/-- A fraction is taken digit by digit, as long as neither the scale nor the mantissa outgrows its
bound. -/
theorem takeFraction_eq (negative : Bool) {cs : List Char} {m s : ℕ} (hm : m < bound) (hs : s ≤ 28)
    (hmantissa : m * Text.tenTo cs.length + Text.digitsValue cs < bound)
    (hscale : s + cs.length ≤ 28) :
    takeFraction negative cs m s hm hs =
      .ok (signed negative (m * Text.tenTo cs.length + Text.digitsValue cs) (s + cs.length)
        hmantissa hscale) := by
  induction cs generalizing m s with
  | nil =>
    unfold takeFraction
    congr 2
    show m = m * 1 + 0
    omega
  | cons c cs ih =>
    rw [List.length_cons] at hscale
    have hsum := (Text.mul_tenTo_add_digitsValue_cons m c cs).symm
    -- The digits behind only add to what is taken so far.
    have hle : m * 10 + Text.digitValue c ≤
        (m * 10 + Text.digitValue c) * Text.tenTo cs.length :=
      Nat.le_mul_of_pos_right _ (Text.tenTo_pos _)
    have hnext : s < 28 ∧ m * 10 + Text.digitValue c < bound := by
      constructor
      · omega
      · omega
    unfold takeFraction
    rw [dif_pos hnext, ih hnext.2 hnext.1 (hsum ▸ hmantissa) (by omega)]
    congr 2
    rw [List.length_cons]
    omega

/-! ## Characters -/

@[simp] theorem toList_text (d : Decimal) : d.text.toList = d.chars :=
  String.toList_ofList

theorem div_tenTo_lt_bound (d : Decimal) : d.mantissa / Text.tenTo d.scale < bound :=
  Nat.lt_of_le_of_lt (Nat.div_le_self _ _) d.mantissa_lt

/-- The digits on both sides of the point make up the mantissa. -/
theorem digitsValue_parts (d : Decimal) :
    Text.digitsValue (Nat.toDigits 10 (d.mantissa / Text.tenTo d.scale)) *
        Text.tenTo (Text.fixedDigits d.scale (d.mantissa % Text.tenTo d.scale)).length +
      Text.digitsValue (Text.fixedDigits d.scale (d.mantissa % Text.tenTo d.scale)) =
        d.mantissa := by
  rw [Text.digitsValue_toDigits, Text.length_fixedDigits,
    Text.digitsValue_fixedDigits (Nat.mod_lt _ (Text.tenTo_pos _))]
  exact Nat.div_add_mod' d.mantissa (Text.tenTo d.scale)

/-- The whole part and the fraction of a decimal are read as its mantissa. -/
theorem ofDigits_digits (negative : Bool) (d : Decimal) :
    ofDigits negative (Nat.toDigits 10 (d.mantissa / Text.tenTo d.scale))
        (Text.fixedDigits d.scale (d.mantissa % Text.tenTo d.scale)) =
      .ok (signed negative d.mantissa d.scale d.mantissa_lt d.scale_le) := by
  have hwhole : Text.digitsValue (Nat.toDigits 10 (d.mantissa / Text.tenTo d.scale)) < bound := by
    rw [Text.digitsValue_toDigits]
    exact d.div_tenTo_lt_bound
  unfold ofDigits
  rw [dif_pos hwhole, takeFraction_eq negative hwhole zero_le_maxScale]
  · congr 2
    · exact d.digitsValue_parts
    · rw [Text.length_fixedDigits, Nat.zero_add]
  · rw [digitsValue_parts]
    exact d.mantissa_lt
  · rw [Text.length_fixedDigits, Nat.zero_add]
    exact d.scale_le

theorem digits_eq_of_scale_eq_zero {d : Decimal} (h : d.scale = 0) :
    d.digits = Nat.toDigits 10 d.mantissa := by
  rw [digits, if_pos h, List.append_nil, h, Text.tenTo_zero, Nat.div_one]

theorem digits_eq_of_scale_ne_zero {d : Decimal} (h : d.scale ≠ 0) :
    d.digits = Nat.toDigits 10 (d.mantissa / Text.tenTo d.scale) ++
      '.' :: Text.fixedDigits d.scale (d.mantissa % Text.tenTo d.scale) := by
  rw [digits, if_neg h]

/-- The digits of a decimal are those of an unsigned number. -/
theorem isUnsigned_digits (d : Decimal) : Token.IsUnsigned d.digits := by
  have hwhole := Text.isDigits_toDigits (d.mantissa / Text.tenTo d.scale)
  by_cases h : d.scale = 0
  · rw [digits_eq_of_scale_eq_zero h]
    exact .whole (Text.isDigits_toDigits d.mantissa)
  · rw [digits_eq_of_scale_ne_zero h]
    exact .fraction hwhole (Text.isDigits_fixedDigits _ (Nat.pos_of_ne_zero h))

/-- A decimal is written with its sign or a digit first. -/
theorem exists_chars_eq_cons (d : Decimal) :
    ∃ c cs, d.chars = c :: cs ∧ (c = '-' ∨ c.isDigit = true) := by
  unfold chars
  split
  · exact ⟨'-', d.digits, rfl, Or.inl rfl⟩
  · obtain ⟨c, cs, hdigits, hc⟩ := d.isUnsigned_digits.exists_cons
    exact ⟨c, cs, hdigits, Or.inr hc⟩

/-- Digits alone are the whole part of a number. -/
theorem readUnsigned_whole (negative : Bool) {whole : List Char} (h : Text.IsDigits whole) :
    readUnsigned negative whole = ofDigits negative whole [] := by
  have htake : whole.takeWhile Char.isDigit = whole := List.takeWhile_eq_self_iff.mpr h.2
  have hdrop : whole.dropWhile Char.isDigit = [] := List.dropWhile_eq_nil_iff.mpr h.2
  unfold readUnsigned
  rw [htake, hdrop]
  exact if_neg (by simpa using h.1)

/-- Digits on both sides of a point are the whole part and the fraction of a number. -/
theorem readUnsigned_fraction (negative : Bool) {whole fraction : List Char}
    (h : Text.IsDigits whole) (hfraction : Text.IsDigits fraction) :
    readUnsigned negative (whole ++ '.' :: fraction) = ofDigits negative whole fraction := by
  have hpoint : ∀ c ∈ ('.' :: fraction).head?, c.isDigit = false := by
    rintro c ⟨⟩
    decide
  have hall : (!fraction.isEmpty && fraction.all Char.isDigit) = true := by
    rw [Bool.and_eq_true, List.all_eq_true]
    exact ⟨by simpa using hfraction.1, hfraction.2⟩
  unfold readUnsigned
  rw [takeWhile_append_of_stop h.2 hpoint, dropWhile_append_of_stop h.2 hpoint,
    if_neg (by simpa using h.1)]
  exact if_pos hall

/-- Digits with or without a point among them are taken apart at the point. -/
theorem readUnsigned_parts (negative : Bool) {whole fraction : List Char}
    (h : Text.IsDigits whole) (hfraction : ∀ c ∈ fraction, c.isDigit = true) :
    readUnsigned negative (whole ++ if fraction = [] then [] else '.' :: fraction) =
      ofDigits negative whole fraction := by
  by_cases hnil : fraction = []
  · rw [if_pos hnil, hnil, List.append_nil]
    exact readUnsigned_whole negative h
  · rw [if_neg hnil]
    exact readUnsigned_fraction negative h ⟨hnil, hfraction⟩

/-- The digits of a decimal are read with the mantissa and the scale that they were written with. -/
theorem readUnsigned_digits (negative : Bool) (d : Decimal) :
    readUnsigned negative d.digits =
      .ok (signed negative d.mantissa d.scale d.mantissa_lt d.scale_le) := by
  rw [← ofDigits_digits]
  by_cases h : d.scale = 0
  · rw [digits_eq_of_scale_eq_zero h, readUnsigned_whole negative (Text.isDigits_toDigits _), h,
      Text.tenTo_zero, Nat.div_one]
    rfl
  · rw [digits_eq_of_scale_ne_zero h]
    exact readUnsigned_fraction negative (Text.isDigits_toDigits _)
      (Text.isDigits_fixedDigits _ (Nat.pos_of_ne_zero h))

/-- Without a minus sign in front a text is read as an unsigned one. -/
theorem read_of_isDigit {c : Char} (h : c.isDigit = true) (cs : List Char) :
    read (c :: cs) = readUnsigned false (c :: cs) := by
  unfold read
  split
  next heq =>
    obtain ⟨rfl, -⟩ := List.cons.inj heq
    exact absurd h (by decide)
  next => rfl

/-- **Decimals are read as they are written.**  Mantissa and scale come back digit by digit, and
so does the sign, unless it is that of a zero. -/
theorem read_chars (d : Decimal) :
    read d.chars = .ok (signed d.negative d.mantissa d.scale d.mantissa_lt d.scale_le) := by
  unfold chars
  cases d.negative with
  | true =>
    rw [if_pos rfl, read]
    exact d.readUnsigned_digits true
  | false =>
    obtain ⟨c, cs, hdigits, hc⟩ := d.isUnsigned_digits.exists_cons
    have hunsigned := d.readUnsigned_digits false
    rw [hdigits] at hunsigned
    rw [if_neg Bool.false_ne_true, hdigits, read_of_isDigit hc, hunsigned]

/-- Only the sign of a zero can be lost. -/
theorem signed_eq_self {d : Decimal} (h : d.mantissa = 0 → d.negative = false) :
    signed d.negative d.mantissa d.scale d.mantissa_lt d.scale_le = d := by
  obtain ⟨negative, mantissa, scale, hmantissa, hscale⟩ := d
  unfold signed
  by_cases hzero : mantissa = 0
  · have hnegative : negative = false := h hzero
    simp [hzero, hnegative]
  · simp [hzero]

/-- A normal decimal comes back as it is. -/
theorem Normal.readAny?_chars {d : Decimal} (h : d.Normal) : readAny? d.chars = some d := by
  refine readAny?_of_plain (d.read_chars.trans ?_)
  rw [signed_eq_self h.unsigned]

/-! ## Zeros that have been read -/

/-- A zero that is given a sign has none. -/
theorem unsigned_signed (negative : Bool) {m s : ℕ} (hm : m < bound) (hs : s ≤ 28)
    (hzero : (signed negative m s hm hs).mantissa = 0) :
    (signed negative m s hm hs).negative = false := by
  have hm0 : m = 0 := hzero
  simp [signed, hm0]

/-- Rounding leaves no zero with a sign. -/
theorem unsigned_of_roundBy {negative : Bool} {digit m s : ℕ} {hm : m < bound} {hs : s ≤ 28}
    {d : Decimal} (h : roundBy negative digit m s hm hs = .ok d) (hzero : d.mantissa = 0) :
    d.negative = false := by
  unfold roundBy at h
  split_ifs at h <;> cases h <;> exact unsigned_signed _ _ _ hzero

/-- No zero has a sign once its fraction has been taken. -/
theorem unsigned_of_takeFraction {negative : Bool} {cs : List Char} {m s : ℕ} {hm : m < bound}
    {hs : s ≤ 28} {d : Decimal} (h : takeFraction negative cs m s hm hs = .ok d)
    (hzero : d.mantissa = 0) : d.negative = false := by
  induction cs generalizing m s with
  | nil =>
    rw [takeFraction] at h
    cases h
    exact unsigned_signed _ _ _ hzero
  | cons c cs ih =>
    unfold takeFraction at h
    split at h
    · exact ih h
    · exact unsigned_of_roundBy h hzero

/-- No zero that is made of digits has a sign. -/
theorem unsigned_of_ofDigits {negative : Bool} {whole fraction : List Char} {d : Decimal}
    (h : ofDigits negative whole fraction = .ok d) (hzero : d.mantissa = 0) :
    d.negative = false := by
  unfold ofDigits at h
  split at h
  · exact unsigned_of_takeFraction h hzero
  · cases h

/-- No zero that is read has a sign, even if there was one before it. -/
theorem unsigned_of_readUnsigned {negative : Bool} {cs : List Char} {d : Decimal}
    (h : readUnsigned negative cs = .ok d) (hzero : d.mantissa = 0) : d.negative = false := by
  unfold readUnsigned at h
  dsimp only at h
  split_ifs at h
  split at h
  · exact unsigned_of_ofDigits h hzero
  · split_ifs at h
    exact unsigned_of_ofDigits h hzero
  · cases h

/-- A decimal that has been read is written, and read again as it is. -/
theorem read_chars_of_read {cs : List Char} {d : Decimal} (h : read cs = .ok d) :
    read d.chars = .ok d := by
  have hunsigned : d.mantissa = 0 → d.negative = false := by
    unfold read at h
    split at h <;> exact unsigned_of_readUnsigned h
  rw [read_chars, signed_eq_self hunsigned]

/-- The characters of a decimal are those of a number in a script. -/
theorem isNumeral_chars (d : Decimal) : Token.IsNumeral d.chars := by
  unfold chars
  split
  · exact .negative d.isUnsigned_digits
  · exact .unsigned d.isUnsigned_digits

/-! ## Integers -/

/-- An integer in normal form has no fraction digits. -/
theorem Normal.scale_eq_zero_of_integer? {d : Decimal} (h : d.Normal) {i : ℤ}
    (hi : d.integer? = some i) : d.scale = 0 := by
  rcases h.stripped with hscale | hstripped
  · exact hscale
  · by_contra hscale
    obtain ⟨k, hk⟩ := Nat.exists_eq_succ_of_ne_zero hscale
    have hmod : d.mantissa % Text.tenTo d.scale = 0 := by
      by_contra hmod
      rw [integer?, if_neg hmod] at hi
      cases hi
    -- A power of ten that divides the mantissa would leave a zero at its end.
    have hten : 10 ∣ d.mantissa := by
      refine Dvd.dvd.trans ?_ (Nat.dvd_of_mod_eq_zero hmod)
      rw [hk, Text.tenTo_succ]
      exact Nat.dvd_mul_left 10 (Text.tenTo k)
    exact hstripped (Nat.mod_eq_zero_of_dvd hten)

/-- **An integer is written without a point**: its sign, if it is below zero, and its digits. -/
theorem chars_normalize_of_integer? {d : Decimal} {i : ℤ} (h : d.integer? = some i) :
    d.normalize.chars = (if i < 0 then ['-'] else []) ++ Nat.toDigits 10 i.natAbs := by
  have hnormal := normal_normalize d
  have hinteger : d.normalize.integer? = some i :=
    (integer?_congr (value_normalize d)).trans h
  have hscale := hnormal.scale_eq_zero_of_integer? hinteger
  have hsigned : d.normalize.signedMantissa = i := by
    have hvalue := value_of_integer? hinteger
    rw [value, hscale, pow_zero, div_one] at hvalue
    exact_mod_cast hvalue
  have hmantissa : d.normalize.mantissa = i.natAbs := by
    rw [← natAbs_signedMantissa, hsigned]
  unfold chars
  rw [hnormal.negative_eq, hsigned, digits_eq_of_scale_eq_zero hscale, hmantissa]
  by_cases hi : i < 0
  · simp [hi]
  · simp [hi]

end Decimal

end RelationScript
