/-
# Selections

A selection keeps the rows in which a column compares in a given way with another column or
with a constant.  A quoted text counts as a date where the column holds dates.

* `Relation.coerce` : the cell that a literal stands for beside a column of some kind;
* `Relation.select` : the selection.
-/
import RelationScript.Relation.Projection

namespace RelationScript

/-- The right-hand side of a selection. -/
inductive Comparand where
  /-- The column with a name. -/
  | column (name : String)
  /-- A constant. -/
  | literal (value : Literal)
  deriving DecidableEq

/-- A right-hand side that has been looked up and typed. -/
inductive Side where
  /-- The cell at a position of the row. -/
  | cellAt (index : Nat)
  /-- The same cell in every row. -/
  | constant (cell : Cell)
  deriving DecidableEq

/-- The cell to compare with in a given row. -/
def Side.cell? : Side → Row → Option Cell
  | cellAt index, row => row[index]?
  | constant cell, _ => some cell

/-- The column with a name, and its position. -/
def Heading.find (heading : Heading) (name : String) : Except AlgebraFault (Nat × Column) :=
  match heading.position? name, heading.column? name with
  | some index, some column => .ok (index, column)
  | _, _ => .error (.unknownColumn name)

namespace Relation

/-- The cell that a literal stands for beside a column of the given kind. -/
def coerce : Literal → Kind → Except Mismatch Cell
  | .number n, .numeric => .ok (.number n)
  | .text s, .string => .ok (.text s)
  | .text s, .date =>
    match Date.read? s with
    | some d => .ok (.date d)
    | none => .error (.noSuchDate (.text s))
  | .number n, .string => .error (.notText (.number n))
  | .number n, .date => .error (.notDate (.number n))
  | .text s, .numeric => .error (.notNumber (.text s))

/-- Look up and type a right-hand side that is compared with the column `left`. -/
def resolve (heading : Heading) (left : Column) : Comparand → Except AlgebraFault Side
  | .column name => do
    let (index, right) ← heading.find name
    if right.kind = left.kind then
      return .cellAt index
    else
      throw (.illTyped (.columns left right))
  | .literal value =>
    match coerce value left.kind with
    | .ok cell => .ok (.constant cell)
    | .error mismatch => .error (.illTyped mismatch)

/-- Whether the comparison holds in a row. -/
def keeps (left : Nat) (comparator : Comparator) (right : Side) (row : Row) : Bool :=
  match row[left]?, right.cell? row with
  | some a, some b => (a.compare? b).any comparator.holds
  | _, _ => false

/-- The rows in which the named column compares as stated with the right-hand side. -/
def select (relation : Relation) (name : String) (comparator : Comparator)
    (comparand : Comparand) : Except AlgebraFault Relation := do
  let (index, left) ← relation.heading.find name
  let right ← resolve relation.heading left comparand
  return ⟨relation.heading, relation.rows.filter (keeps index comparator right)⟩

end Relation

end RelationScript
