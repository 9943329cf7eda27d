/-
# Union, intersection and difference

The three operators take relations of exactly the same heading.  Union and intersection keep
the first occurrence of each row, difference keeps all; order is that of the operands.

* `Relation.distinct` : the first occurrence of each row;
* `Relation.combine` : a set operator applied to two relations.
-/
import RelationScript.Relation.Basic

namespace RelationScript

/-- Whether a row equals one of `rows`. -/
def Row.occursIn (rows : List Row) (row : Row) : Bool :=
  rows.any fun other => other.canonical == row.canonical

namespace Relation

/-- The first occurrence of each row, in order. -/
def distinct : List Row → List Row
  | [] => []
  | row :: rows => row :: (distinct rows).filter fun other => other.canonical != row.canonical

/-- The rows of the result of a set operator. -/
def combineRows : SetOperator → List Row → List Row → List Row
  | .union, left, right => distinct (left ++ right)
  | .intersection, left, right => distinct (left.filter (Row.occursIn right))
  | .difference, left, right => left.filter fun row => !Row.occursIn right row

/-- A set operator applied to two relations of the same heading. -/
def combine (operator : SetOperator) (left right : Relation) : Except AlgebraFault Relation :=
  if left.heading = right.heading then
    .ok ⟨left.heading, combineRows operator left.rows right.rows⟩
  else
    .error (.headingsDiffer operator)

end Relation

end RelationScript
