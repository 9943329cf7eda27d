/-
# Relations documents

A relations document is a JSON object of relations.  Each has a schema, which lists its
columns by name and type, and rows of cells.  Numbers are read as a `Decimal.Reader` reads them, and
written without final zeros.

* `Store.ofJson` : the store that a document describes, or what is wrong with it;
* `Relation.toJson`, `Store.toJson` : the rows of relations as JSON objects.
-/
import RelationScript.Decimal.Scientific
import RelationScript.Json.Reading
import RelationScript.Json.Writing
import RelationScript.Relation.Record
import RelationScript.Store
import RelationScript.Text.Name

namespace RelationScript

/-! ## Faults -/

/-- What is wrong with a document. -/
inductive LoadFault where
  /-- The document is no object. -/
  | notAnObject
  /-- A relation has a name that no script can write. -/
  | badRelationName (name : String)
  /-- A relation is no object. -/
  | badRelation (relation : String)
  /-- A relation has no array under `schema`. -/
  | badSchema (relation : String)
  /-- A column lacks a name or a type. -/
  | badColumn (relation : String)
  /-- A column has a name that no script can write. -/
  | badColumnName (name : String)
  /-- A column has a type that does not exist. -/
  | unknownKind (relation keyword column : String)
  /-- What stands under `rows` is no array. -/
  | badRows (relation : String)
  /-- A row is no array. -/
  | badRow (relation : String) (row : Nat)
  /-- A row has a cell that is no value of its column. -/
  | badCell (relation : String) (row : Nat)
  /-- The relation cannot be built. -/
  | algebra (relation : String) (fault : AlgebraFault)
  deriving DecidableEq

/-- The wording of a fault in the shape of the document. -/
def LoadFault.detail : LoadFault → String
  | notAnObject => "top level must be an object of relations"
  | badRelationName name => "Relation name '" ++ name ++ "' is not a valid identifier"
  | badRelation relation => "relation '" ++ relation ++ "' must be an object"
  | badSchema relation => "relation '" ++ relation ++ "' needs a \"schema\" array"
  | badColumn relation =>
    "relation '" ++ relation ++ "': attributes need a \"name\" and a \"type\""
  | badColumnName name => "Attribute name '" ++ name ++ "' is not a valid identifier"
  | unknownKind relation keyword column =>
    "relation '" ++ relation ++ "': unknown type '" ++ keyword ++ "' for attribute '" ++ column ++
      "'"
  | badRows relation => "relation '" ++ relation ++ "': \"rows\" must be an array"
  | badRow relation row => "relation '" ++ relation ++ s!"': row {row} must be an array"
  | badCell relation row =>
    "relation '" ++ relation ++
      s!"': row {row} has a cell that does not match its attribute type"
  | algebra _ fault => fault.message

/-- The wording of a fault. -/
def LoadFault.message : LoadFault → String
  | algebra relation fault => "Invalid relation '" ++ relation ++ "': " ++ fault.message
  | fault => "Invalid relations file: " ++ fault.detail

/-! ## Loading -/

/-- The cell of a given kind that a JSON value writes. -/
def Cell.ofJson? [Decimal.Reader] : Kind → Json → Option Cell
  | .numeric, .number digits => (Decimal.readAny? digits.toList).map number
  | .string, .string s => some (text s)
  | .date, .string s => (Date.read? s).map date
  | _, _ => none

/-- The column that a JSON value describes. -/
def Column.ofJson (relation : String) (json : Json) : Except LoadFault Column :=
  match (json.member? "name").bind Json.string?, (json.member? "type").bind Json.string? with
  | some name, some keyword =>
    if Text.isName name then
      match Kind.ofName? keyword with
      | some kind => .ok ⟨name, kind⟩
      | none => .error (.unknownKind relation keyword name)
    else
      .error (.badColumnName name)
  | _, _ => .error (.badColumn relation)

/-- The cells of a row that has one JSON value for each column. -/
def Row.ofJson? [Decimal.Reader] : Heading → List Json → Option Row
  | column :: heading, item :: items => do
    let cell ← Cell.ofJson? column.kind item
    return cell :: (← Row.ofJson? heading items)
  | _, _ => some []

/-- The row with a given index: an array with one cell for each column. -/
def Row.ofJson [Decimal.Reader] (relation : String) (heading : Heading) (index : Nat)
    (json : Json) : Except LoadFault Row :=
  match json.items? with
  | none => .error (.badRow relation index)
  | some items =>
    if items.length ≠ heading.length then
      .error (.algebra relation (.rowLength index heading.length items.length))
    else
      match Row.ofJson? heading items with
      | some row => .ok row
      | none => .error (.badCell relation index)

/-- Rows from top to bottom, the first having a given index. -/
def Row.ofJsonItems [Decimal.Reader] (relation : String) (heading : Heading) :
    Nat → List Json → Except LoadFault (List Row)
  | _, [] => .ok []
  | index, item :: items => do
    let row ← Row.ofJson relation heading index item
    return row :: (← Row.ofJsonItems relation heading (index + 1) items)

/-- The columns of a relation. -/
def Heading.ofJson (relation : String) (json : Json) : Except LoadFault Heading :=
  match (json.member? "schema").bind Json.items? with
  | some items => items.mapM (Column.ofJson relation)
  | none => .error (.badSchema relation)

/-- The JSON values of the rows; a relation may leave them out. -/
def Json.rowItems (relation : String) (json : Json) : Except LoadFault (List Json) :=
  match json.member? "rows" with
  | none => .ok []
  | some (.array items) => .ok items
  | some _ => .error (.badRows relation)

/-- The relation that a JSON value describes. -/
def Relation.ofJson [Decimal.Reader] (name : String) (json : Json) : Except LoadFault Relation :=
  match json with
  | .object _ => do
    let columns ← Heading.ofJson name json
    let items ← json.rowItems name
    let heading ← (Heading.check columns).mapError (.algebra name)
    let rows ← Row.ofJsonItems name heading 0 items
    (Relation.build heading rows).mapError (.algebra name)
  | _ => .error (.badRelation name)

/-- The bindings that the members of a document describe, in order. -/
def Store.ofMembers [Decimal.Reader] (store : Store) :
    List (String × Json) → Except LoadFault Store
  | [] => .ok store
  | (name, json) :: members =>
    if Text.isName name then do
      let relation ← Relation.ofJson name json
      Store.ofMembers (store.bind name relation) members
    else
      .error (.badRelationName name)

/-- The store that a document describes. -/
def Store.ofJson [Decimal.Reader] : Json → Except LoadFault Store
  | .object members => Store.ofMembers .empty members
  | _ => .error .notAnObject

/-! ## Dumping -/

/-- The digits of an integer. -/
def Json.integerText (i : Int) : String :=
  String.ofList ((if i < 0 then ['-'] else []) ++ Nat.toDigits 10 i.natAbs)

/-- A text as a JSON number, or as a string where JSON has no such number. -/
def Json.ofNumberText (text : String) : Json :=
  match readNumber? text.toList with
  | some (digits, []) => .number digits
  | _ => .string text

/-- The cell as JSON.  A number is written as an integer where it is one of 64 bits, and else
with the digits of its normal form. -/
def Cell.toJson : Cell → Json
  | number n =>
    match n.integer? with
    | some i =>
      if -9223372036854775808 ≤ i ∧ i < 9223372036854775808 then .number (Json.integerText i)
      else .ofNumberText n.normalize.text
    | none => .ofNumberText n.normalize.text
  | text s => .string s
  | date d => .string d.text

/-- A record as a JSON object. -/
def Record.toJson (record : Record) : Json :=
  .ofMembers (record.map fun (name, cell) => (name, cell.toJson))

/-- The rows of a relation as an array of objects. -/
def Relation.toJson (relation : Relation) : Json :=
  .array (relation.records.map Record.toJson)

/-- The chosen bindings as an object, or all when none are chosen. -/
def Store.toJson (store : Store) (chosen : List String) : Json :=
  .object ((store.showing chosen).map fun (name, relation) => (name, relation.toJson))

end RelationScript
