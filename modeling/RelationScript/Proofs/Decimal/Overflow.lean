/-
# Numbers that are too large

A number without an exponent is refused for one reason only: rounded to a whole number, it has
more than 96 bits.  Digits that are left out further behind the point are rounded too, but there
the mantissa can give up a digit of its own.

* `Decimal.Oversized` : the two ways to be too large;
* `Decimal.ofDigits_eq_error` : the reader refuses these numbers and no others.
-/
import RelationScript.Proofs.Decimal.Numerals

namespace RelationScript.Decimal

/-! ## Rounding at the bound -/

/-- A number goes beyond the bound by rounding only if no digit of it stands behind the point. -/
theorem roundBy_eq_error {negative : Bool} {digit m s : ℕ} {hm : m < bound} {hs : s ≤ 28}
    {fault : ReadFault} :
    roundBy negative digit m s hm hs = .error fault ↔
      fault = .roundedTooFar ∧ s = 0 ∧ m + 1 = bound ∧ 5 ≤ digit := by
  unfold roundBy
  split_ifs with hdigit hnext hscale
  · simp only [false_iff]
    omega
  · simp only [false_iff]
    omega
  · rw [Except.error.injEq, eq_comm]
    have hfull : m + 1 = bound := by omega
    have hhalf : 5 ≤ digit := by omega
    simp [hscale, hfull, hhalf]
  · simp [hscale]

/-- With a digit behind the point a number stays in bounds. -/
theorem exists_takeFraction (negative : Bool) (cs : List Char) {m s : ℕ} (hm : m < bound)
    (hs : s ≤ 28) (hscale : s ≠ 0) : ∃ d, takeFraction negative cs m s hm hs = .ok d := by
  induction cs generalizing m s with
  | nil => exact ⟨_, rfl⟩
  | cons c cs ih =>
    unfold takeFraction
    split
    next hnext => exact ih hnext.2 hnext.1 (Nat.succ_ne_zero s)
    next =>
      cases hround : roundBy negative (Text.digitValue c) m s hm hs with
      | ok d => exact ⟨d, rfl⟩
      | error fault => exact absurd (roundBy_eq_error.mp hround).2.1 hscale

theorem takeFraction_eq_error {negative : Bool} {cs : List Char} {m : ℕ} {hm : m < bound}
    {hs : 0 ≤ 28} {fault : ReadFault} :
    takeFraction negative cs m 0 hm hs = .error fault ↔
      fault = .roundedTooFar ∧ m + 1 = bound ∧ ∃ c ∈ cs.head?, 5 ≤ Text.digitValue c := by
  cases cs with
  | nil => simp [takeFraction]
  | cons c cs =>
    unfold takeFraction
    split
    next hnext =>
      -- The largest whole number has no room for a further digit.
      obtain ⟨d, hd⟩ := exists_takeFraction negative cs hnext.2 hnext.1 (Nat.succ_ne_zero 0)
      simp only [hd, reduceCtorEq, false_iff]
      rintro ⟨-, hfull, -⟩
      have hbound : 1 < bound := by decide
      omega
    next =>
      rw [roundBy_eq_error]
      simp

/-! ## Numbers beyond the bound -/

/-- The number with these digits before and after its point is too large for a decimal: its whole
part has more than 96 bits, or only just not, and half or more of a unit comes on top. -/
inductive Oversized (whole fraction : List Char) : ReadFault → Prop
  | tooManyDigits (h : bound ≤ Text.digitsValue whole) : Oversized whole fraction .tooManyDigits
  | roundedTooFar (h : Text.digitsValue whole < bound)
      (hhalf : (2 * bound - 1) * Text.tenTo fraction.length ≤
        2 * Text.digitsValue (whole ++ fraction)) : Oversized whole fraction .roundedTooFar

/-- A fraction is half a unit or more exactly if its first digit is five or more. -/
theorem half_le_iff {whole fraction : List Char} (hfraction : ∀ c ∈ fraction, c.isDigit = true)
    (hwhole : Text.digitsValue whole < bound) :
    (2 * bound - 1) * Text.tenTo fraction.length ≤ 2 * Text.digitsValue (whole ++ fraction) ↔
      Text.digitsValue whole + 1 = bound ∧ ∃ c ∈ fraction.head?, 5 ≤ Text.digitValue c := by
  obtain ⟨k, hk⟩ := Nat.exists_eq_add_of_lt hwhole
  rw [Text.digitsValue_append, hk]
  generalize Text.digitsValue whole = w
  have hdouble : 2 * (w + k + 1) - 1 = 2 * w + 2 * k + 1 := by omega
  rw [hdouble]
  cases fraction with
  | nil =>
    show (2 * w + 2 * k + 1) * 1 ≤ 2 * (w * 1 + 0) ↔ _
    simp
  | cons c cs =>
    rw [List.forall_mem_cons] at hfraction
    have hdigit := Text.digitValue_lt hfraction.1
    have hrest := Text.digitsValue_lt hfraction.2
    rw [Text.digitsValue_cons, List.length_cons, Text.tenTo_succ]
    generalize Text.tenTo cs.length = unit at hrest ⊢
    have hsum : (2 * w + 2 * k + 1) * (unit * 10) =
        2 * (w * (unit * 10)) + (20 * (k * unit) + 10 * unit) := by ring
    rw [hsum]
    constructor
    · -- The other digits make less than one in the first place.
      intro h
      have hfirst := Nat.mul_le_mul_right unit (Nat.le_of_lt_succ hdigit)
      have hk : k = 0 := by
        by_contra hne
        have hle := Nat.le_mul_of_pos_left unit (Nat.pos_of_ne_zero hne)
        omega
      refine ⟨by omega, c, rfl, ?_⟩
      by_contra hlt
      have hle := Nat.mul_le_mul_right unit (Nat.le_of_lt_succ (Nat.lt_of_not_le hlt))
      omega
    · rintro ⟨hfull, _, ⟨⟩, hhalf⟩
      obtain rfl : k = 0 := by omega
      have hle := Nat.mul_le_mul_right unit hhalf
      omega

/-- **The reader refuses numbers that are too large, and no others.** -/
theorem ofDigits_eq_error {negative : Bool} {whole fraction : List Char}
    (hfraction : ∀ c ∈ fraction, c.isDigit = true) {fault : ReadFault} :
    ofDigits negative whole fraction = .error fault ↔ Oversized whole fraction fault := by
  unfold ofDigits
  split
  next hwhole =>
    rw [takeFraction_eq_error, ← half_le_iff hfraction hwhole]
    constructor
    · rintro ⟨rfl, hhalf⟩
      exact .roundedTooFar hwhole hhalf
    · rintro (h | ⟨-, hhalf⟩)
      · omega
      · exact ⟨rfl, hhalf⟩
  next hwhole =>
    constructor
    · rintro ⟨⟩
      exact .tooManyDigits (by omega)
    · rintro (h | ⟨h, -⟩)
      · rfl
      · exact absurd h hwhole

end RelationScript.Decimal
