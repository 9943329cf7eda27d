/-
# Headings

A heading lists the columns of a relation in order: each has a name and a kind.

* `Heading.position?`, `Heading.column?` : look-up by name;
* `Heading.repeated?` : the first name that an earlier column already has.
-/
import RelationScript.Cell

namespace RelationScript

/-- A named column of cells of one kind. -/
structure Column where
  /-- The name of the column. -/
  name : String
  /-- The kind of its cells. -/
  kind : Kind
  deriving DecidableEq

/-- The columns of a relation, from left to right. -/
abbrev Heading := List Column

namespace Heading

/-- The names of the columns. -/
def names (heading : Heading) : List String :=
  heading.map Column.name

/-- The kinds of the columns. -/
def kinds (heading : Heading) : List Kind :=
  heading.map Column.kind

/-- The position of the first column with a name. -/
def position? (heading : Heading) (name : String) : Option Nat :=
  heading.findIdx? (·.name == name)

/-- The first column with a name. -/
def column? (heading : Heading) (name : String) : Option Column :=
  heading.find? (·.name == name)

/-- The first of `names` that is in `seen` or equals an earlier one. -/
def repeatedAfter? (seen : List String) : List String → Option String
  | [] => none
  | name :: names => if name ∈ seen then some name else repeatedAfter? (name :: seen) names

/-- The first name that an earlier column already has. -/
def repeated? (heading : Heading) : Option String :=
  repeatedAfter? [] (names heading)

end Heading

end RelationScript
