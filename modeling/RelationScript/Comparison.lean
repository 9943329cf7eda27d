/-
# Comparisons

The six comparators of a condition, and the literals that a condition may compare with.

* `Comparator.holds` : which orderings satisfy a comparator;
* `Literal.text` : a literal as it is written in a script.
-/
import RelationScript.Decimal.Basic

namespace RelationScript

/-- How a condition compares its two sides. -/
inductive Comparator where
  | equal
  | notEqual
  | less
  | lessEqual
  | greater
  | greaterEqual
  deriving DecidableEq

namespace Comparator

/-- Whether two values in the given order satisfy the comparator. -/
def holds : Comparator → Ordering → Bool
  | equal, o => o.isEq
  | notEqual, o => o.isNe
  | less, o => o.isLT
  | lessEqual, o => o.isLE
  | greater, o => o.isGT
  | greaterEqual, o => o.isGE

/-- The symbol that writes the comparator. -/
def symbol : Comparator → String
  | equal => "="
  | notEqual => "!="
  | less => "<"
  | lessEqual => "<="
  | greater => ">"
  | greaterEqual => ">="

/-- All comparators, equality first. -/
def all : List Comparator :=
  [equal, notEqual, less, lessEqual, greater, greaterEqual]

end Comparator

/-- A constant in a condition: a bare number or a quoted text. -/
inductive Literal where
  | number (value : Decimal)
  | text (value : String)
  deriving DecidableEq

/-- A literal as a script writes it. -/
def Literal.display : Literal → String
  | number n => n.text
  | text s => "'" ++ s ++ "'"

end RelationScript
