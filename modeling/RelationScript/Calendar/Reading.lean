/-
# Reading dates

A date is written as year, month and day with hyphens between them.  Each of the three may
have blanks in front.  A year with a sign has any number of digits and a year without one at
most four; a month and a day have one digit or two.

* `Date.read?` : the day that a text names, if it names one.
-/
import RelationScript.Calendar.Date
import RelationScript.Text.Blank

namespace RelationScript.Date

/-- A natural number of one digit up to `width` digits, and the rest of the text. -/
def readNumber? (width : Nat) (cs : List Char) : Option (Nat × List Char) :=
  let digits := (cs.take width).takeWhile Char.isDigit
  if digits.isEmpty then none else some (Text.digitsValue digits, cs.drop digits.length)

/-- A year with the blanks before it, and the rest of the text. -/
def readYear? (cs : List Char) : Option (Int × List Char) :=
  match Text.trimStart cs with
  | '-' :: rest => (readNumber? rest.length rest).map fun (n, more) => (-(n : Int), more)
  | '+' :: rest => (readNumber? rest.length rest).map fun (n, more) => ((n : Int), more)
  | rest => (readNumber? 4 rest).map fun (n, more) => ((n : Int), more)

/-- A month or a day with the blanks before it, and the rest of the text. -/
def readPart? (cs : List Char) : Option (Nat × List Char) :=
  readNumber? 2 (Text.trimStart cs)

/-- The rest of the text after a hyphen. -/
def afterHyphen? : List Char → Option (List Char)
  | '-' :: rest => some rest
  | _ => none

/-- The day that a text names. -/
def readChars? (cs : List Char) : Option Date := do
  let (year, rest) ← readYear? cs
  let (month, rest) ← readPart? (← afterHyphen? rest)
  let (day, rest) ← readPart? (← afterHyphen? rest)
  if rest.isEmpty then of? year month day else none

/-- The day that a string names. -/
def read? (s : String) : Option Date :=
  readChars? s.toList

end RelationScript.Date
