/-
# Records

A record is a row whose cells carry the names of their columns.

* `Relation.records` : the rows of a relation as records;
* `Record.get?` : the first cell under a name;
* `Record.toMap` : the record as a map, in which the last cell under a name counts.
-/
import RelationScript.Relation.Basic
import Std.Data.ExtTreeMap

namespace RelationScript

/-- The cells of a row, each with its name. -/
abbrev Record := List (String × Cell)

namespace Record

/-- The first cell under a name. -/
def get? (record : Record) (name : String) : Option Cell :=
  List.lookup name record

/-- The record as a map from names to cells. -/
def toMap (record : Record) : Std.ExtTreeMap String Cell :=
  record.foldl (fun map (name, cell) => map.insert name cell) ∅

end Record

namespace Relation

/-- The record of a row. -/
def record (relation : Relation) (row : Row) : Record :=
  relation.heading.names.zip row

/-- The rows as records, in order. -/
def records (relation : Relation) : List Record :=
  relation.rows.map relation.record

end Relation

end RelationScript
