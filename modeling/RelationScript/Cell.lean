/-
# Cells

A cell is a number, a text or a date, and a column holds cells of one kind.

* `Cell.kind` : the kind of a cell;
* `Cell.compare?` : order among cells of one kind;
* `Cell.canonical` : the cell with its number normalised, by which cells count as equal;
* `Cell.display` : the text of a cell.
-/
import RelationScript.Decimal.Basic
import RelationScript.Calendar.Reading
import RelationScript.Text.Folding

namespace RelationScript

/-! ## Kinds -/

/-- What the cells of a column are. -/
inductive Kind where
  | numeric
  | string
  | date
  deriving DecidableEq

namespace Kind

/-- The name of a kind. -/
def name : Kind → String
  | numeric => "numeric"
  | string => "string"
  | date => "date"

/-- The kind that a keyword names, in any case. -/
def ofName? (keyword : String) : Option Kind :=
  match Text.fold keyword with
  | "numeric" | "number" => some numeric
  | "string" | "text" => some string
  | "date" => some date
  | _ => none

end Kind

/-! ## Cells -/

/-- A value in a row. -/
inductive Cell where
  | number (value : Decimal)
  | text (value : String)
  | date (value : Date)
  deriving DecidableEq

namespace Cell

/-- The kind that a cell belongs to. -/
def kind : Cell → Kind
  | number _ => .numeric
  | text _ => .string
  | date _ => .date

/-- Numbers compare by value, texts by code points and dates in time.  Cells of different
kinds do not compare. -/
def compare? : Cell → Cell → Option Ordering
  | number a, number b => some (a.compareValue b)
  | text a, text b => some (compare a b)
  | date a, date b => some (a.compare b)
  | _, _ => none

/-- The cell with its number, if it is one, in normal form. -/
def canonical : Cell → Cell
  | number n => number n.normalize
  | text s => text s
  | date d => date d

/-- The text of a cell: a number shows no final zeros in its fraction. -/
def display : Cell → String
  | number n => n.normalize.text
  | text s => s
  | date d => d.text

/-- The number in a cell. -/
def number? : Cell → Option Decimal
  | number n => some n
  | _ => none

/-- The text in a cell. -/
def text? : Cell → Option String
  | text s => some s
  | _ => none

/-- The date in a cell. -/
def date? : Cell → Option Date
  | date d => some d
  | _ => none

end Cell

end RelationScript
