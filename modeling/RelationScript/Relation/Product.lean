/-
# Products

The product of two relations pairs every row of the left with every row of the right.  Where
names clash, columns are qualified by the label of their side, in rounds: a round qualifies
every unqualified column whose present name occurs twice, and new names can clash in turn.
A column is qualified at most once, so there are no more rounds than columns.

* `Slot` : a column on its way into a product;
* `Slot.settle` : the rounds of qualification;
* `Relation.product` : the product under two labels.
-/
import RelationScript.Relation.Basic

namespace RelationScript

/-! ## Qualification -/

/-- A column of a product, with the label of the side it comes from. -/
structure Slot where
  /-- The label of its side. -/
  label : String
  /-- The column as the operand has it. -/
  column : Column
  /-- Whether its name has been qualified. -/
  qualified : Bool
  deriving DecidableEq

namespace Slot

/-- The present name: that of the operand, behind the label if it is qualified. -/
def name (slot : Slot) : String :=
  if slot.qualified then slot.label ++ "." ++ slot.column.name else slot.column.name

/-- The column of the product. -/
def toColumn (slot : Slot) : Column :=
  ⟨slot.name, slot.column.kind⟩

/-- Whether the slot is unqualified while its name occurs twice among `names`. -/
def clashes (names : List String) (slot : Slot) : Bool :=
  !slot.qualified && 1 < names.count slot.name

/-- One round: qualify all clashing slots at once. -/
def round (slots : List Slot) : List Slot :=
  let names := slots.map name
  slots.map fun slot => if slot.clashes names then ⟨slot.label, slot.column, true⟩ else slot

/-- Whether no slot is left to qualify. -/
def settled (slots : List Slot) : Bool :=
  !slots.any (clashes (slots.map name))

/-- At most the given number of rounds, fewer when no slot clashes any more. -/
def settle : Nat → List Slot → List Slot
  | 0, slots => slots
  | fuel + 1, slots => if settled slots then slots else settle fuel (round slots)

/-- The slots of one side. -/
def ofHeading (label : String) (heading : Heading) : List Slot :=
  heading.map fun column => ⟨label, column, false⟩

end Slot

/-! ## The product -/

namespace Relation

/-- The heading of a product: the columns of the left, then those of the right, qualified
where their names clash. -/
def productHeading (left right : Heading) (leftLabel rightLabel : String) : Heading :=
  let slots := Slot.ofHeading leftLabel left ++ Slot.ofHeading rightLabel right
  (Slot.settle slots.length slots).map Slot.toColumn

/-- All pairs of rows, the left one varying slowest. -/
def productRows (left right : List Row) : List Row :=
  left.flatMap fun row => right.map (row ++ ·)

/-- The product of two relations, whose clashing columns are qualified by the labels. -/
def product (left right : Relation) (leftLabel rightLabel : String) :
    Except AlgebraFault Relation := do
  let heading ← (productHeading left.heading right.heading leftLabel rightLabel).check
  return ⟨heading, productRows left.rows right.rows⟩

end Relation

end RelationScript
