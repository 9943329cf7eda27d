/-
# Decimal numbers with an exponent

A base number, the letter `e` and a power of ten.  A negative power moves the point left and
rounds what falls off the 28 fraction digits; a positive power uses up the scale and beyond
it multiplies, rounding to even when the product outgrows the mantissa.

* `Decimal.shiftRight`, `Decimal.shiftLeft?` : the number with its point moved left or right;
* `Decimal.readScientific?` : the number that a text with an exponent writes;
* `Decimal.Reader` : how texts are read as numbers, in the two notations;
* `Decimal.readAny?` : plain notation where it applies, scientific notation otherwise.
-/
import RelationScript.Decimal.Reading

namespace RelationScript.Decimal

/-! ## Rounding -/

/-- Divide by a power of ten, a half going away from zero. -/
def divideHalfUp (m digits : Nat) : Nat :=
  (m + Text.tenTo digits / 2) / Text.tenTo digits

/-- Divide by a power of ten, a half going to the even neighbour. -/
def divideHalfEven (m digits : Nat) : Nat :=
  let quotient := m / Text.tenTo digits
  let twice := 2 * (m % Text.tenTo digits)
  if Text.tenTo digits < twice || (twice == Text.tenTo digits && quotient % 2 == 1) then
    quotient + 1
  else
    quotient

/-- The least number of final digits, searched from `k` within `fuel` steps, without which
the mantissa fits 96 bits. -/
def excessFrom (m : Nat) : Nat → Nat → Nat
  | 0, k => k
  | fuel + 1, k => if m / Text.tenTo k < bound then k else excessFrom m fuel (k + 1)

/-- How many final digits a product has to lose to fit 96 bits.  A product of two mantissas
has at most 58 digits, so no more than 58 are ever lost. -/
def excessDigits (m : Nat) : Nat :=
  excessFrom m 58 0

/-- A number of any mantissa and a scale of at most 28, with the fewest digits rounded away
that make it fit.  Digits before the point cannot be given up. -/
def fit? (negative : Bool) (m s : Nat) : Option Decimal :=
  let lost := excessDigits m
  let kept := divideHalfEven m lost
  if h : kept < bound ∧ lost ≤ s ∧ s ≤ 28 then
    some (signed negative kept (s - lost) h.1 (by omega))
  else if h : divideHalfEven kept 1 < bound ∧ lost + 1 ≤ s ∧ s ≤ 28 then
    some (signed negative (divideHalfEven kept 1) (s - (lost + 1)) h.1 (by omega))
  else
    none

/-! ## Powers of ten -/

/-- The number with another scale and the same digits. -/
def withScale (d : Decimal) (s : Nat) (hs : s ≤ 28) : Decimal :=
  ⟨d.negative, d.mantissa, s, d.mantissa_lt, hs⟩

/-- A mantissa stays in bounds when digits are rounded off. -/
theorem divideHalfUp_lt {m k : Nat} (hm : m < bound) : divideHalfUp m k < bound := by
  unfold divideHalfUp
  cases k with
  | zero => simpa using hm
  | succ k =>
    have hpos := Text.tenTo_pos k
    rw [Nat.div_lt_iff_lt_mul (Text.tenTo_pos _), Text.tenTo_succ]
    unfold bound at hm ⊢
    omega

/-- Divide by `10 ^ e`.  Digits that fall off the largest scale are rounded off; a sign is
kept even when all digits are. -/
def shiftRight (d : Decimal) (e : Nat) : Decimal :=
  if h : d.scale + e ≤ 28 then
    d.withScale (d.scale + e) h
  else
    ⟨d.negative, divideHalfUp d.mantissa (d.scale + e - 28), 28,
      divideHalfUp_lt d.mantissa_lt, Nat.le_refl 28⟩

/-- Multiply by `10 ^ k` keeping the scale; zero becomes plain zero. -/
def timesPower? (d : Decimal) (k : Nat) : Option Decimal :=
  if d.mantissa = 0 then some zero else fit? d.negative (d.mantissa * Text.tenTo k) d.scale

/-- Multiply by `10 ^ e`.  A power within the scale only moves the point.  A larger one
multiplies, in two steps where it exceeds 19, and the product is normalised. -/
def shiftLeft? (d : Decimal) (e : Nat) : Option Decimal :=
  if e ≤ d.scale then
    some (d.withScale (d.scale - e) (Nat.le_trans (Nat.sub_le _ _) d.scale_le))
  else if e ≤ 28 then
    if e ≤ 19 then
      (d.timesPower? e).map normalize
    else
      ((d.timesPower? 19).bind (·.timesPower? (e - 19))).map normalize
  else
    none

/-! ## Texts -/

/-- The exponent that digits write; it fits 32 bits. -/
def readExponent? (cs : List Char) : Option Nat :=
  if !cs.isEmpty && cs.all Char.isDigit && Text.digitsValue cs < 4294967296 then
    some (Text.digitsValue cs)
  else
    none

/-- The number multiplied by the power of ten that the exponent's text names.  No power
beyond 28 is taken in either direction. -/
def raise? (base : Decimal) : List Char → Option Decimal
  | '-' :: cs => do
    let e ← readExponent? cs
    if e ≤ 28 then some (base.shiftRight e) else none
  | '+' :: cs => do base.shiftLeft? (← readExponent? cs)
  | cs => do base.shiftLeft? (← readExponent? cs)

/-- Whether a character opens an exponent. -/
def isExponentMark (c : Char) : Bool :=
  c == 'e' || c == 'E'

/-- The number that a text with an exponent writes. -/
def readScientific? (cs : List Char) : Option Decimal :=
  match cs.dropWhile (!isExponentMark ·) with
  | [] => none
  | _ :: exponent =>
    match read (cs.takeWhile (!isExponentMark ·)) with
    | .ok base => base.raise? exponent
    | .error _ => none

/-! ## Both notations -/

/-- How the library of decimal numbers reads a text, in its two notations.  What is proved of
documents holds for every reader; the instance below is the one that runs. -/
class Reader where
  /-- The number that a text writes in plain notation. -/
  plain : List Char → Except ReadFault Decimal
  /-- The number that a text writes with an exponent. -/
  scientific : List Char → Option Decimal

/-- A text with an exponent is not plain, however many digits are rounded off before it. -/
instance : Reader where
  plain := read
  scientific := readScientific?

/-- The number that a text writes in plain notation, or else with an exponent. -/
def readAny? [Reader] (cs : List Char) : Option Decimal :=
  match Reader.plain cs with
  | .ok d => some d
  | .error _ => Reader.scientific cs

/-- What is plain needs no exponent. -/
theorem readAny?_of_plain [Reader] {cs : List Char} {d : Decimal} (h : Reader.plain cs = .ok d) :
    readAny? cs = some d := by
  rw [readAny?, h]

/-- A fraction of 29 digits loses the last one, and the point then moves by the exponent. -/
example : (readAny? "0.12345678901234567890123456789e5".toList).map (·.text) =
    some "12345.67890123456789012345679" := by
  decide +kernel

end RelationScript.Decimal
