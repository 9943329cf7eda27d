/-
# Reading decimal numbers

A number is written as an optional minus sign, digits, and optionally a point with more
digits.  All digits of the whole part have to fit the mantissa; fraction digits are taken
while the scale and the mantissa allow it, and the first one left out rounds half up.

* `Decimal.ofDigits` : the number with a given whole part and fraction;
* `Decimal.read` : the number that a text writes.
-/
import RelationScript.Decimal.Basic

namespace RelationScript.Decimal

/-- Why a text is not a decimal number. -/
inductive ReadFault where
  /-- The text has another shape. -/
  | malformed
  /-- The whole part exceeds 96 bits. -/
  | tooManyDigits
  /-- The whole part fits 96 bits, but not when its fraction is rounded into it. -/
  | roundedTooFar
  deriving DecidableEq

/-- The wording of a fault. -/
def ReadFault.message : ReadFault → String
  | malformed => "Invalid decimal: unknown character"
  | tooManyDigits => "Invalid decimal: overflow from too many digits"
  | roundedTooFar => "Invalid decimal: overflow from mantissa after rounding"

/-! ## Digits -/

/-- Round a number by the first digit `d` left out: half and more go up in magnitude.  A
mantissa that outgrows 96 bits gives up its own last digit, rounded the same way. -/
def roundBy (negative : Bool) (d m s : Nat) (hm : m < bound) (hs : s ≤ 28) :
    Except ReadFault Decimal :=
  if d < 5 then
    .ok (signed negative m s hm hs)
  else if h : m + 1 < bound then
    .ok (signed negative (m + 1) s h hs)
  else if s = 0 then
    .error .roundedTooFar
  else
    .ok (signed negative ((m + 5) / 10) (s - 1) (by omega) (by omega))

/-- Take fraction digits one at a time, until one does not fit any more. -/
def takeFraction (negative : Bool) :
    List Char → (m s : Nat) → m < bound → s ≤ 28 → Except ReadFault Decimal
  | [], m, s, hm, hs => .ok (signed negative m s hm hs)
  | c :: cs, m, s, hm, hs =>
    if h : s < 28 ∧ m * 10 + Text.digitValue c < bound then
      takeFraction negative cs (m * 10 + Text.digitValue c) (s + 1) h.2 h.1
    else
      roundBy negative (Text.digitValue c) m s hm hs

/-- The number with the given digits before and after the point. -/
def ofDigits (negative : Bool) (whole fraction : List Char) : Except ReadFault Decimal :=
  if h : Text.digitsValue whole < bound then
    takeFraction negative fraction (Text.digitsValue whole) 0 h zero_le_maxScale
  else
    .error .tooManyDigits

/-! ## Texts -/

/-- The number that an unsigned text writes: digits, or digits, a point and digits.  Nothing else
may stand in it, behind digits that are rounded off either. -/
def readUnsigned (negative : Bool) (cs : List Char) : Except ReadFault Decimal :=
  let whole := cs.takeWhile Char.isDigit
  if whole.isEmpty then
    .error .malformed
  else
    match cs.dropWhile Char.isDigit with
    | [] => ofDigits negative whole []
    | '.' :: fraction =>
      if !fraction.isEmpty && fraction.all Char.isDigit then
        ofDigits negative whole fraction
      else
        .error .malformed
    | _ => .error .malformed

/-- The number that a text writes, with or without a minus sign. -/
def read : List Char → Except ReadFault Decimal
  | '-' :: cs => readUnsigned true cs
  | cs => readUnsigned false cs

end RelationScript.Decimal
