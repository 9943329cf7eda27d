/-
# Projections

A projection keeps the named columns in the order named.

* `Relation.project` : the projection, with or without repeated rows.
-/
import RelationScript.Relation.Combination

namespace RelationScript

namespace Heading

/-- The position of a column that has to exist. -/
def locate (heading : Heading) (name : String) : Except AlgebraFault Nat :=
  match heading.position? name with
  | some index => .ok index
  | none => .error (.unknownColumn name)

/-- The positions of the named columns, or the first name that is unknown. -/
def locateAll (heading : Heading) : List String → Except AlgebraFault (List Nat)
  | [] => .ok []
  | name :: names => do
    let index ← locate heading name
    return index :: (← locateAll heading names)

end Heading

/-- The entries at the given positions, in the order of the positions. -/
def pick {α : Type} (indices : List Nat) (entries : List α) : List α :=
  indices.filterMap (entries[·]?)

namespace Relation

/-- The columns with the given names, in that order; with `dedup`, only the first occurrence
of each row. -/
def project (relation : Relation) (names : List String) (dedup : Bool) :
    Except AlgebraFault Relation := do
  let indices ← relation.heading.locateAll names
  let heading ← Heading.check (pick indices relation.heading)
  let rows := relation.rows.map (pick indices)
  return ⟨heading, if dedup then distinct rows else rows⟩

end Relation

end RelationScript
