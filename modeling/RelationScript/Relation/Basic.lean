/-
# Relations

A relation has a heading and rows in a fixed order; a row may occur more than once.

* `Relation.WellFormed` : names are distinct, and every row fits the heading;
* `Relation.build` : the checking constructor, with the first fault it meets;
* `Row.canonical` : what two rows have in common when they count as equal.
-/
import RelationScript.Heading
import RelationScript.Comparison
import RelationScript.SetOperator

namespace RelationScript

/-! ## Rows -/

/-- The cells of a row, from left to right. -/
abbrev Row := List Cell

namespace Row

/-- The kinds of the cells. -/
def kinds (row : Row) : List Kind :=
  row.map Cell.kind

/-- The row with all numbers in normal form.  Rows are equal when these are. -/
def canonical (row : Row) : Row :=
  row.map Cell.canonical

end Row

/-! ## Faults -/

/-- Why a condition is ill-typed. -/
inductive Mismatch where
  /-- A number is compared with a string column. -/
  | notText (literal : Literal)
  /-- A quoted text is compared with a numeric column. -/
  | notNumber (literal : Literal)
  /-- A number is compared with a date column. -/
  | notDate (literal : Literal)
  /-- A quoted text that names no day is compared with a date column. -/
  | noSuchDate (literal : Literal)
  /-- Columns of two kinds are compared. -/
  | columns (left right : Column)
  deriving DecidableEq

/-- The wording of a mismatch. -/
def Mismatch.message : Mismatch → String
  | notText literal => literal.display ++ " is not a string"
  | notNumber literal => literal.display ++ " cannot be parsed into a number"
  | notDate literal => literal.display ++ " is not a date"
  | noSuchDate literal => literal.display ++ " cannot be parsed into a date"
  | columns left right =>
    left.name ++ " and " ++ right.name ++ " have different types (" ++ left.kind.name ++ ", " ++
      right.kind.name ++ ")"

/-- Why a relation cannot be built or an operation not be applied. -/
inductive AlgebraFault where
  /-- Two columns share a name. -/
  | repeatedColumn (name : String)
  /-- A row has the wrong number of cells. -/
  | rowLength (row expected found : Nat)
  /-- A cell is of another kind than its column. -/
  | cellKind (row : Nat) (column : Column) (found : Kind)
  /-- The operands of a set operator have different headings. -/
  | headingsDiffer (operator : SetOperator)
  /-- A column is not in the heading. -/
  | unknownColumn (name : String)
  /-- A condition is ill-typed. -/
  | illTyped (mismatch : Mismatch)
  deriving DecidableEq

/-- The wording of a fault. -/
def AlgebraFault.message : AlgebraFault → String
  | repeatedColumn name => "Attribute " ++ name ++ " appears more than once"
  | rowLength row expected found => s!"Row {row} has {found} values, expected {expected}"
  | cellKind row column found =>
    s!"Row {row}: attribute " ++ column.name ++ " expects a " ++ column.kind.name ++
      " value, got " ++ found.name
  | headingsDiffer operator =>
    "Cannot apply " ++ operator.name ++ ": relations' attribute types don't match"
  | unknownColumn name => "Relation's attributes do not include " ++ name
  | illTyped mismatch => mismatch.message

/-! ## Relations -/

/-- A heading with rows in order. -/
structure Relation where
  /-- The columns. -/
  heading : Heading
  /-- The rows, from top to bottom. -/
  rows : List Row
  deriving DecidableEq

/-- A heading without repeated names. -/
def Heading.check (heading : Heading) : Except AlgebraFault Heading :=
  match heading.repeated? with
  | some name => .error (.repeatedColumn name)
  | none => .ok heading

namespace Relation

/-- Names are pairwise distinct, and every row has a cell of the right kind for each column. -/
structure WellFormed (relation : Relation) : Prop where
  nodup : relation.heading.names.Nodup
  kinds : ∀ row ∈ relation.rows, Row.kinds row = relation.heading.kinds

/-- Check the row with a given index: first its length, then its cells from left to right. -/
def checkRow (heading : Heading) (index : Nat) (row : Row) : Except AlgebraFault Unit :=
  if row.length ≠ heading.length then
    .error (.rowLength index heading.length row.length)
  else
    match (heading.zip row).find? fun (column, cell) => cell.kind != column.kind with
    | some (column, cell) => .error (.cellKind index column cell.kind)
    | none => .ok ()

/-- Check rows from top to bottom, the first having a given index. -/
def checkRows (heading : Heading) : Nat → List Row → Except AlgebraFault Unit
  | _, [] => .ok ()
  | index, row :: rows => do
    checkRow heading index row
    checkRows heading (index + 1) rows

/-- A relation of the given heading and rows, if the heading has no repeated name and every
row fits it. -/
def build (heading : Heading) (rows : List Row) : Except AlgebraFault Relation := do
  let heading ← heading.check
  checkRows heading 0 rows
  return ⟨heading, rows⟩

/-- The relation of a heading without rows. -/
def empty (heading : Heading) : Relation :=
  ⟨heading, []⟩

/-- The relation with every number in normal form. -/
def canonical (relation : Relation) : Relation :=
  ⟨relation.heading, relation.rows.map Row.canonical⟩

end Relation

end RelationScript
