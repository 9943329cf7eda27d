/-
# Calendar dates

Days of the proleptic Gregorian calendar, with a year zero, in the years from -262143 to
262142.

* `Date.IsDay` : which combinations of year, month and day exist;
* `Date.compare` : chronological order;
* `Date.text` : year, month and day joined by hyphens.
-/
import RelationScript.Text.Digits

namespace RelationScript

namespace Date

/-! ## The calendar -/

/-- Every fourth year is a leap year, except that of the centuries only every fourth is. -/
def isLeapYear (year : Int) : Bool :=
  year % 4 == 0 && (year % 100 != 0 || year % 400 == 0)

/-- How many days a month has. -/
def daysInMonth (year : Int) (month : Nat) : Nat :=
  if month = 2 then
    if isLeapYear year then 29 else 28
  else if month = 4 ∨ month = 6 ∨ month = 9 ∨ month = 11 then
    30
  else
    31

/-- The days that exist. -/
def IsDay (year : Int) (month day : Nat) : Prop :=
  (-262143 ≤ year ∧ year ≤ 262142) ∧ (1 ≤ month ∧ month ≤ 12) ∧
    (1 ≤ day ∧ day ≤ daysInMonth year month)

instance (year : Int) (month day : Nat) : Decidable (IsDay year month day) :=
  inferInstanceAs (Decidable (_ ∧ _ ∧ _))

end Date

/-- A day of the calendar. -/
structure Date where
  /-- The year; the year before 1 is 0. -/
  year : Int
  /-- The month, from 1 to 12. -/
  month : Nat
  /-- The day of the month, from 1. -/
  day : Nat
  isDay : Date.IsDay year month day
  deriving DecidableEq

namespace Date

/-- The day with the given numbers, if there is one. -/
def of? (year : Int) (month day : Nat) : Option Date :=
  if h : IsDay year month day then some ⟨year, month, day, h⟩ else none

/-- Earlier days come first. -/
def compare (a b : Date) : Ordering :=
  ((Ord.compare a.year b.year).then (Ord.compare a.month b.month)).then
    (Ord.compare a.day b.day)

/-! ## Text -/

/-- A year: at least four digits, with a minus sign before year zero and a plus sign after
the year 9999. -/
def yearChars (year : Int) : List Char :=
  let digits := Text.paddedDigits 4 year.natAbs
  if year < 0 then '-' :: digits
  else if 9999 < year then '+' :: digits
  else digits

/-- Year, month and day, the latter two with two digits each. -/
def chars (d : Date) : List Char :=
  yearChars d.year ++ '-' :: Text.fixedDigits 2 d.month ++ '-' :: Text.fixedDigits 2 d.day

/-- Year, month and day as a string. -/
def text (d : Date) : String :=
  String.ofList d.chars

end Date

end RelationScript
