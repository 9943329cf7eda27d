/-
# Decimal numbers

A decimal is a signed whole mantissa below `2 ^ 96` and a count of fraction digits, its
scale, of at most 28.  Numbers keep the scale they were written with; the scale never takes
part in comparisons.

* `Decimal.units` : the value as a whole number of `10 ^ (-28)`, which decides equality and order;
* `Decimal.normalize` : the one representation with the least scale and no negative zero;
* `Decimal.integer?` : the value as an integer, when it is one;
* `Decimal.text` : the digits with the stored scale.
-/
import RelationScript.Text.Digits

namespace RelationScript

/-- Mantissas are smaller than the 96th power of two. -/
def Decimal.bound : Nat := 79228162514264337593543950336

/-- A signed decimal number of at most 96 bits and 28 fraction digits. -/
structure Decimal where
  /-- Whether the number is written with a minus sign. -/
  negative : Bool
  /-- All digits of the number, read as one natural number. -/
  mantissa : Nat
  /-- How many of the digits stand after the point. -/
  scale : Nat
  mantissa_lt : mantissa < Decimal.bound
  scale_le : scale ≤ 28
  deriving DecidableEq

namespace Decimal

/-! ## Values -/

/-- A number may have no fraction digits. -/
theorem zero_le_maxScale : 0 ≤ 28 := Nat.zero_le 28

/-- A number may have as many as 28. -/
theorem maxScale_le : 28 ≤ 28 := Nat.le_refl 28

/-- Zero without a sign or fraction digits. -/
def zero : Decimal := ⟨false, 0, 0, by decide, zero_le_maxScale⟩

/-- The number `-m / 10 ^ s` or `m / 10 ^ s`; zero takes no sign. -/
def signed (negative : Bool) (m s : Nat) (hm : m < bound) (hs : s ≤ 28) : Decimal :=
  ⟨negative && m != 0, m, s, hm, hs⟩

/-- The mantissa with its sign. -/
def signedMantissa (d : Decimal) : Int :=
  if d.negative then -(d.mantissa : Int) else d.mantissa

/-- The value, counted in units of the smallest fraction `10 ^ (-28)`. -/
def units (d : Decimal) : Int :=
  d.signedMantissa * Text.tenTo (28 - d.scale)

/-- Numbers compare by value, whatever their scales. -/
def compareValue (a b : Decimal) : Ordering :=
  compare a.units b.units

/-! ## Normal form -/

/-- Drop final zeros of the fraction: divide by ten while a fraction digit is left and the
last digit is zero. -/
def stripZeros : Nat → Nat → Nat × Nat
  | m, 0 => (m, 0)
  | m, s + 1 => if m % 10 = 0 then stripZeros (m / 10) s else (m, s + 1)

/-- Stripping never grows the mantissa. -/
theorem stripZeros_mantissa_le (m s : Nat) : (stripZeros m s).1 ≤ m := by
  induction s generalizing m with
  | zero => simp [stripZeros]
  | succ s ih =>
    unfold stripZeros
    split
    · exact Nat.le_trans (ih (m / 10)) (Nat.div_le_self m 10)
    · exact Nat.le_refl m

/-- Stripping never grows the scale. -/
theorem stripZeros_scale_le (m s : Nat) : (stripZeros m s).2 ≤ s := by
  induction s generalizing m with
  | zero => simp [stripZeros]
  | succ s ih =>
    unfold stripZeros
    split
    · exact Nat.le_succ_of_le (ih (m / 10))
    · exact Nat.le_refl _

/-- The representation of the value with the fewest fraction digits, zero unsigned. -/
def normalize (d : Decimal) : Decimal :=
  signed d.negative (stripZeros d.mantissa d.scale).1 (stripZeros d.mantissa d.scale).2
    (Nat.lt_of_le_of_lt (stripZeros_mantissa_le _ _) d.mantissa_lt)
    (Nat.le_trans (stripZeros_scale_le _ _) d.scale_le)

/-- The value as an integer, when the fraction is zero. -/
def integer? (d : Decimal) : Option Int :=
  if d.mantissa % Text.tenTo d.scale = 0 then
    let whole := d.mantissa / Text.tenTo d.scale
    some (if d.negative then -(whole : Int) else whole)
  else
    none

/-! ## Text -/

/-- The digits of the number: at least one before the point, and exactly `scale` after it. -/
def digits (d : Decimal) : List Char :=
  Nat.toDigits 10 (d.mantissa / Text.tenTo d.scale) ++
    if d.scale = 0 then []
    else '.' :: Text.fixedDigits d.scale (d.mantissa % Text.tenTo d.scale)

/-- The number with its sign and all digits of the stored scale. -/
def chars (d : Decimal) : List Char :=
  if d.negative then '-' :: d.digits else d.digits

/-- The number with its sign and all digits of the stored scale, as a string. -/
def text (d : Decimal) : String :=
  String.ofList d.chars

end Decimal

end RelationScript
