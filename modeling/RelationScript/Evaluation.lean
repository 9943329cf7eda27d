/-
# Evaluation

A query has a value in a store: the relation that its operators make of the relations named
in it.  Operands are evaluated from left to right, and the first fault ends the evaluation.

* `EvalFault` : why a query has no value;
* `Query.evaluate` : the value of a query.
-/
import RelationScript.Query.Basic
import RelationScript.Relation.Product
import RelationScript.Relation.Selection
import RelationScript.Store

namespace RelationScript

/-! ## Faults -/

/-- A pair of brackets: what kind it is, and what stands in it. -/
inductive Brackets where
  | projection (body : String)
  | selection (body : String)
  deriving DecidableEq

/-- Brackets as messages name them. -/
def Brackets.display : Brackets → String
  | projection body => "Projection(" ++ body ++ ")"
  | selection body => "Limit(" ++ body ++ ")"

/-- Why a query has no value. -/
inductive EvalFault where
  /-- No relation is bound to a name. -/
  | undefined (name : String)
  /-- The operands of a set operator have different headings. -/
  | headingsDiffer (operator : SetOperator)
  /-- Brackets name a column that the relation does not have. -/
  | unknownColumn (brackets : Brackets) (name : String)
  /-- A projection lists a column twice. -/
  | repeatedColumn (brackets : Brackets) (name : String)
  /-- A selection is ill-typed. -/
  | illTyped (body : String) (mismatch : Mismatch)
  /-- Any other fault of the algebra. -/
  | algebra (fault : AlgebraFault)
  deriving DecidableEq

/-- The wording of a fault. -/
def EvalFault.message : EvalFault → String
  | undefined name => "Undefined relation: " ++ name
  | headingsDiffer operator =>
    "Cannot apply " ++ operator.name ++ ": relations' attribute types don't match"
  | unknownColumn brackets name =>
    "Cannot apply " ++ brackets.display ++ ": relation's attributes do not include " ++ name
  | repeatedColumn brackets name =>
    "Cannot apply " ++ brackets.display ++ ": attribute " ++ name ++ " is listed more than once"
  | illTyped body mismatch => "Cannot apply Limit(" ++ body ++ "): " ++ mismatch.message
  | algebra fault => fault.message

/-- A fault of a set operator. -/
def EvalFault.ofCombine : AlgebraFault → EvalFault
  | .headingsDiffer operator => headingsDiffer operator
  | fault => algebra fault

/-- A fault of a projection with a given body. -/
def EvalFault.ofProject (body : String) : AlgebraFault → EvalFault
  | .unknownColumn name => unknownColumn (.projection body) name
  | .repeatedColumn name => repeatedColumn (.projection body) name
  | fault => algebra fault

/-- A fault of a selection with a given body. -/
def EvalFault.ofSelect (body : String) : AlgebraFault → EvalFault
  | .unknownColumn name => unknownColumn (.selection body) name
  | .illTyped mismatch => illTyped body mismatch
  | fault => algebra fault

/-! ## Values of queries -/

/-- How queries are evaluated. -/
structure Options where
  /-- Whether projections keep only the first occurrence of each row. -/
  dedup : Bool := false
  deriving DecidableEq

/-- What stands in brackets: the source text, or a rendering where there is no source. -/
def bodyText (source rendering : String) : String :=
  if source.isEmpty then rendering else source

/-- An operand as the right-hand side of a selection. -/
def Operand.comparand : Operand → Comparand
  | column ref => .column ref.columnName
  | literal value => .literal value

namespace Query

/-- The value of a query in a store. -/
def evaluate (store : Store) (options : Options) : Query → Except EvalFault Relation
  | named name =>
    match store.find? name with
    | some relation => .ok relation
    | none => .error (.undefined name)
  | combine operator left right => do
    let a ← left.evaluate store options
    let b ← right.evaluate store options
    (a.combine operator b).mapError .ofCombine
  | product left right => do
    let a ← left.evaluate store options
    let b ← right.evaluate store options
    (a.product b (labels left right).1 (labels left right).2).mapError .algebra
  | project base columns text => do
    let relation ← base.evaluate store options
    let names := columns.map ColumnRef.columnName
    (relation.project names options.dedup).mapError
      (.ofProject (bodyText text (", ".intercalate names)))
  | select base condition text => do
    let relation ← base.evaluate store options
    (relation.select condition.column.columnName condition.comparator
      condition.operand.comparand).mapError (.ofSelect (bodyText text condition.display))

end Query

end RelationScript
