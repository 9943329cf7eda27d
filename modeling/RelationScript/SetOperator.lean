/-
# Set operators

The three operators that combine relations of one heading.
-/

namespace RelationScript

/-- Union, intersection and difference. -/
inductive SetOperator where
  | union
  | intersection
  | difference
  deriving DecidableEq

namespace SetOperator

/-- The name of the operator in messages. -/
def name : SetOperator → String
  | union => "Union"
  | intersection => "Intersection"
  | difference => "Difference"

/-- The symbol that writes the operator. -/
def symbol : SetOperator → Char
  | union => '|'
  | intersection => '&'
  | difference => '\x5c'

end SetOperator

end RelationScript
