/-
# Decimal digits

Natural numbers as runs of ASCII digits.

* `Text.digitsValue` : the number that a run of digits writes;
* `Text.fixedDigits` : the last `w` digits of a number, zeros included;
* `Text.paddedDigits` : all digits of a number, padded with zeros to a least width;
* `Text.tenTo` : powers of ten.
-/

namespace RelationScript.Text

/-- The value of a single digit. -/
def digitValue (c : Char) : Nat :=
  c.toNat - '0'.toNat

/-- The number written by a run of decimal digits; the empty run is zero. -/
def digitsValue (cs : List Char) : Nat :=
  Nat.ofDigitChars 10 cs 0

/-- The last `w` decimal digits of `n`, leading zeros included. -/
def fixedDigits : Nat → Nat → List Char
  | 0, _ => []
  | w + 1, n => fixedDigits w (n / 10) ++ [Nat.digitChar (n % 10)]

/-- The decimal digits of `n`, with zeros in front where there are fewer than `w`. -/
def paddedDigits (w n : Nat) : List Char :=
  let digits := Nat.toDigits 10 n
  List.replicate (w - digits.length) '0' ++ digits

/-- The power of ten that a digit with `k` digits behind it counts. -/
def tenTo (k : Nat) : Nat :=
  Nat.pow 10 k

/-- The first power of ten is one. -/
@[simp] theorem tenTo_zero : tenTo 0 = 1 := rfl

/-- Each power of ten is ten times the one before. -/
theorem tenTo_succ (k : Nat) : tenTo (k + 1) = tenTo k * 10 := rfl

/-- Powers of ten are positive. -/
theorem tenTo_pos (k : Nat) : 0 < tenTo k := by
  induction k with
  | zero => decide
  | succ k ih => rw [tenTo_succ]; omega

/-- A fixed run of digits has its stated length. -/
@[simp] theorem length_fixedDigits (w n : Nat) : (fixedDigits w n).length = w := by
  induction w generalizing n with
  | zero => rfl
  | succ w ih => simp [fixedDigits, ih]

end RelationScript.Text
