/-
# Queries

A query names a relation or applies an operator to queries.

* `Query` : the expressions of the language;
* `Query.displayName?` : the relation that a query is a restriction of;
* `Query.labels` : how the two sides of a product are called;
* `Statement` : a query with the name that its result is bound to.
-/
import RelationScript.Comparison
import RelationScript.SetOperator

namespace RelationScript

/-! ## Parts of brackets -/

/-- A reference to a column, with a qualifier if the name has dots. -/
structure ColumnRef where
  /-- All of the path but its last name, joined by dots. -/
  qualifier : Option String
  /-- The last name of the path. -/
  name : String
  deriving DecidableEq

namespace ColumnRef

/-- The reference along a path of names: all but the last make up the qualifier. -/
def ofPath (first : String) (more : List String) : ColumnRef :=
  match more.getLast? with
  | none => ⟨none, first⟩
  | some last => ⟨some (".".intercalate (first :: more.dropLast)), last⟩

/-- The name of the column that the reference denotes. -/
def columnName (ref : ColumnRef) : String :=
  match ref.qualifier with
  | some qualifier => qualifier ++ "." ++ ref.name
  | none => ref.name

end ColumnRef

/-- The right-hand side of a condition. -/
inductive Operand where
  | column (ref : ColumnRef)
  | literal (value : Literal)
  deriving DecidableEq

/-- An operand as a script writes it. -/
def Operand.display : Operand → String
  | column ref => ref.columnName
  | literal value => value.display

/-- A comparison of a column with an operand. -/
structure Condition where
  /-- The column compared. -/
  column : ColumnRef
  /-- How it is compared. -/
  comparator : Comparator
  /-- What it is compared with. -/
  operand : Operand
  deriving DecidableEq

/-- A condition as a script writes it, without blanks. -/
def Condition.display (condition : Condition) : String :=
  condition.column.columnName ++ condition.comparator.symbol ++ condition.operand.display

/-! ## Queries and statements -/

/-- An expression whose value is a relation. -/
inductive Query where
  /-- The relation bound to a name. -/
  | named (name : String)
  /-- A set operator applied to two queries. -/
  | combine (operator : SetOperator) (left right : Query)
  /-- The product of two queries. -/
  | product (left right : Query)
  /-- A projection, with the source text of its brackets. -/
  | project (base : Query) (columns : List ColumnRef) (text : String)
  /-- A selection, with the source text of its brackets. -/
  | select (base : Query) (condition : Condition) (text : String)
  deriving DecidableEq

namespace Query

/-- The relation that a query restricts by brackets, if it is a named one. -/
def displayName? : Query → Option String
  | named name => some name
  | project base _ _ => base.displayName?
  | select base _ _ => base.displayName?
  | combine _ _ _ => none
  | product _ _ => none

/-- The labels of the two sides of a product: the names of the relations, or `_1` and `_2` for
sides without one.  When both are the same, the right one is marked by `_2`. -/
def labels (left right : Query) : String × String :=
  let leftLabel := left.displayName?.getD "_1"
  let rightLabel := right.displayName?.getD "_2"
  if leftLabel = rightLabel then (leftLabel, rightLabel ++ "_2") else (leftLabel, rightLabel)

end Query

/-- A line of a script: a query, and the name its result is bound to. -/
structure Statement where
  /-- The query. -/
  query : Query
  /-- The name to bind. -/
  target : String
  deriving DecidableEq

end RelationScript
