/-
# The shape of documents

What the relations of a document look like, told without the loader: an object under a name, with a
`schema` of distinct names and with rows that have a cell for each column.  Which numbers there are is
left to the `Decimal.Reader`.

* `Json.IsCell`, `Json.IsColumn`, `Json.IsHeading`, `Json.IsRow`, `Json.IsRelation` : the JSON value
  describes the cell, column, heading, row or relation;
* `Json.IsDocument` : the value is an object of such relations;
* `Cell.ofJson?_eq_some`, `Row.ofJson_eq_ok` : the loader yields what is described;
* `Relation.ofJson_eq_ok` : the loader yields the relation that is described.
-/
import RelationScript.Proofs.Script.WellFormed

namespace RelationScript

namespace Json

/-! ## Values that describe relations -/

/-- The value has the name of the column, which scripts can write, and a keyword for its kind. -/
structure IsColumn (json : Json) (column : Column) : Prop where
  name : json.member? "name" = some (string column.name)
  isName : Text.isName column.name = true
  kind : ∃ keyword, json.member? "type" = some (string keyword) ∧
    Kind.ofName? keyword = some column.kind

/-- Under `schema` the value describes the columns in order, and their names differ. -/
structure IsHeading (json : Json) (heading : Heading) : Prop where
  columns : ∃ items, json.member? "schema" = some (array items) ∧
    List.Forall₂ IsColumn items heading
  nodup : heading.names.Nodup

/-- The value has these items under `rows`, or nothing there and no items. -/
inductive HasRows (json : Json) : List Json → Prop
  | absent (h : json.member? "rows" = none) : HasRows json []
  | array {items : List Json} (h : json.member? "rows" = some (array items)) : HasRows json items

variable [Decimal.Reader]

/-- The value writes the cell, as a cell of the given kind. -/
inductive IsCell : Kind → Json → Cell → Prop
  | number {digits : String} {value : Decimal} (h : Decimal.readAny? digits.toList = some value) :
      IsCell .numeric (number digits) (.number value)
  | text (content : String) : IsCell .string (string content) (.text content)
  | date {content : String} {day : Date} (h : Date.read? content = some day) :
      IsCell .date (string content) (.date day)

/-- The values write the cells of a row, one for each column. -/
inductive AreCells : Heading → List Json → Row → Prop
  | nil : AreCells [] [] []
  | cons {column : Column} {heading : Heading} {item : Json} {items : List Json} {cell : Cell}
      {row : Row} (hcell : IsCell column.kind item cell) (hmore : AreCells heading items row) :
      AreCells (column :: heading) (item :: items) (cell :: row)

/-- The value is an array of the cells of the row. -/
inductive IsRow (heading : Heading) : Json → Row → Prop
  | intro {items : List Json} {row : Row} (h : AreCells heading items row) :
      IsRow heading (array items) row

/-- The value is an object that describes the heading and the rows of the relation. -/
structure IsRelation (json : Json) (relation : Relation) : Prop where
  object : ∃ members, json = object members
  heading : json.IsHeading relation.heading
  rows : ∃ items, json.HasRows items ∧ List.Forall₂ (IsRow relation.heading) items relation.rows

/-- The member of a document describes a relation, under a name that scripts can write. -/
def IsMember (name : String) (body : Json) : Prop :=
  Text.isName name = true ∧ ∃ relation, body.IsRelation relation

/-- The value is an object of relations. -/
structure IsDocument (json : Json) : Prop where
  object : ∃ members, json = Json.object members
  members : ∀ name body, json.member? name = some body → IsMember name body

end Json

open Json (AreCells HasRows IsCell IsColumn IsHeading IsRow IsRelation)

/-! ## Members -/

/-- A member that is looked up as a text is one. -/
theorem Json.bind_string?_eq_some {json : Json} {key text : String} :
    (json.member? key).bind Json.string? = some text ↔
      json.member? key = some (.string text) := by
  rw [Option.bind_eq_some_iff]
  constructor
  · rintro ⟨value, hvalue, htext⟩
    cases value <;> simp_all [Json.string?]
  · intro h
    exact ⟨_, h, rfl⟩

/-- Arrays are the only values with items. -/
theorem Json.eq_array_of_items? {json : Json} {items : List Json} (h : json.items? = some items) :
    json = .array items := by
  cases json with
  | array found => rw [Option.some.inj h]
  | _ => cases h

/-- A member that is looked up as an array is one. -/
theorem Json.bind_items?_eq_some {json : Json} {key : String} {items : List Json} :
    (json.member? key).bind Json.items? = some items ↔
      json.member? key = some (.array items) := by
  rw [Option.bind_eq_some_iff]
  constructor
  · rintro ⟨value, hvalue, htext⟩
    cases value <;> simp_all [Json.items?]
  · intro h
    exact ⟨_, h, rfl⟩

/-! ## Columns -/

/-- The loader yields the column that is described. -/
theorem Column.ofJson_eq_ok {relation : String} {json : Json} {column : Column} :
    Column.ofJson relation json = .ok column ↔ json.IsColumn column := by
  constructor
  · intro h
    unfold Column.ofJson at h
    split at h
    next name keyword hname hkeyword =>
      split at h
      next hisName =>
        split at h
        next kind hkind =>
          obtain rfl := Except.ok.inj h
          exact ⟨Json.bind_string?_eq_some.mp hname, hisName, keyword,
            Json.bind_string?_eq_some.mp hkeyword, hkind⟩
        next => cases h
      next => cases h
    next => cases h
  · rintro ⟨hname, hisName, keyword, hkeyword, hkind⟩
    rw [Column.ofJson, Json.bind_string?_eq_some.mpr hname, Json.bind_string?_eq_some.mpr hkeyword]
    dsimp only
    rw [if_pos hisName, hkind]

/-- It yields the columns of the schema one by one; whether their names differ is checked later. -/
theorem Heading.ofJson_eq_ok {relation : String} {json : Json} {heading : Heading} :
    Heading.ofJson relation json = .ok heading ↔ ∃ items,
      json.member? "schema" = some (.array items) ∧ List.Forall₂ IsColumn items heading := by
  rw [Heading.ofJson]
  constructor
  · intro h
    split at h
    next items hitems =>
      refine ⟨items, Json.bind_items?_eq_some.mp hitems, ?_⟩
      exact (mapM_eq_ok.mp h).imp fun _ _ => Column.ofJson_eq_ok.mp
    next => cases h
  · rintro ⟨items, hitems, hcolumns⟩
    rw [Json.bind_items?_eq_some.mpr hitems]
    exact mapM_eq_ok.mpr (hcolumns.imp fun _ _ => Column.ofJson_eq_ok.mpr)

/-- The columns that a value describes have names that scripts can write. -/
theorem Json.IsHeading.isName {json : Json} {heading : Heading} (h : json.IsHeading heading)
    {column : Column} (hcolumn : column ∈ heading) : Text.isName column.name = true := by
  obtain ⟨items, -, hcolumns⟩ := h.columns
  obtain ⟨item, -, hitem⟩ := exists_left_of_forall₂ hcolumns hcolumn
  exact hitem.isName

/-- Rows may be left out, but nothing else may stand in their place. -/
theorem Json.rowItems_eq_ok {relation : String} {json : Json} {items : List Json} :
    json.rowItems relation = .ok items ↔ json.HasRows items := by
  unfold Json.rowItems
  constructor
  · intro h
    split at h
    next hrows =>
      obtain rfl := Except.ok.inj h
      exact .absent hrows
    next found hrows =>
      obtain rfl := Except.ok.inj h
      exact .array hrows
    next => cases h
  · rintro (hrows | hrows) <;> rw [hrows]

/-! ## Rows -/

variable [Decimal.Reader]

/-- The kind of the column decides what a value may be. -/
theorem Cell.ofJson?_eq_some {kind : Kind} {json : Json} {cell : Cell} :
    Cell.ofJson? kind json = some cell ↔ IsCell kind json cell := by
  constructor
  · intro h
    unfold Cell.ofJson? at h
    split at h
    · obtain ⟨value, hvalue, rfl⟩ := Option.map_eq_some_iff.mp h
      exact .number hvalue
    · obtain rfl := Option.some.inj h
      exact .text _
    · obtain ⟨day, hday, rfl⟩ := Option.map_eq_some_iff.mp h
      exact .date hday
    · cases h
  · rintro (hvalue | _ | hday)
    · exact Option.map_eq_some_iff.mpr ⟨_, hvalue, rfl⟩
    · rfl
    · exact Option.map_eq_some_iff.mpr ⟨_, hday, rfl⟩

/-- There is a value for each column. -/
theorem Json.AreCells.length_eq {heading : Heading} {items : List Json} {row : Row}
    (h : AreCells heading items row) : items.length = heading.length := by
  induction h with
  | nil => rfl
  | cons hcell hmore ih => rw [List.length_cons, List.length_cons, ih]

/-- A cell has the kind that it was read as. -/
theorem Json.IsCell.kind_eq {kind : Kind} {json : Json} {cell : Cell} (h : IsCell kind json cell) :
    cell.kind = kind := by
  cases h <;> rfl

/-- So a row that was read has the kinds of its heading. -/
theorem Json.AreCells.kinds_eq {heading : Heading} {items : List Json} {row : Row}
    (h : AreCells heading items row) : Row.kinds row = heading.kinds := by
  induction h with
  | nil => rfl
  | @cons column heading _ _ cell row hcell hmore ih =>
    show cell.kind :: Row.kinds row = column.kind :: Heading.kinds heading
    rw [hcell.kind_eq, ih]

/-- Columns and values are gone through together, and their number is compared before. -/
theorem Row.ofJson?_eq_some {heading : Heading} {items : List Json} {row : Row}
    (hlength : items.length = heading.length) :
    Row.ofJson? heading items = some row ↔ AreCells heading items row := by
  induction heading generalizing items row with
  | nil =>
    obtain rfl := List.length_eq_zero_iff.mp hlength
    constructor
    · intro h
      obtain rfl := Option.some.inj h
      exact .nil
    · rintro ⟨⟩
      rfl
  | cons column heading ih =>
    cases items with
    | nil => cases hlength
    | cons item items =>
      have hmore := fun {row} => @ih items row (Nat.succ.inj hlength)
      rw [Row.ofJson?, Option.bind_eq_bind, Option.bind_eq_some_iff]
      constructor
      · rintro ⟨cell, hcell, h⟩
        obtain ⟨row, hrow, hall⟩ := Option.bind_eq_some_iff.mp h
        obtain rfl := Option.some.inj hall
        exact .cons (Cell.ofJson?_eq_some.mp hcell) (hmore.mp hrow)
      · rintro (_ | ⟨hcell, hrow⟩)
        refine ⟨_, Cell.ofJson?_eq_some.mpr hcell, ?_⟩
        exact Option.bind_eq_some_iff.mpr ⟨_, hmore.mpr hrow, rfl⟩

/-- The loader yields the row that is described, whatever its index. -/
theorem Row.ofJson_eq_ok {relation : String} {heading : Heading} {index : ℕ} {json : Json}
    {row : Row} : Row.ofJson relation heading index json = .ok row ↔ IsRow heading json row := by
  unfold Row.ofJson
  constructor
  · intro h
    split at h
    next => cases h
    next items hitems =>
      obtain rfl := Json.eq_array_of_items? hitems
      split at h
      next => cases h
      next hlength =>
        split at h
        next cells hcells =>
          obtain rfl := Except.ok.inj h
          exact .intro ((Row.ofJson?_eq_some (not_not.mp hlength)).mp hcells)
        next => cases h
  · rintro ⟨hcells⟩
    dsimp only [Json.items?]
    rw [if_neg (not_not_intro hcells.length_eq),
      (Row.ofJson?_eq_some hcells.length_eq).mpr hcells]

/-- It yields the rows in order. -/
theorem Row.ofJsonItems_eq_ok {relation : String} {heading : Heading} {index : ℕ}
    {items : List Json} {rows : List Row} :
    Row.ofJsonItems relation heading index items = .ok rows ↔
      List.Forall₂ (IsRow heading) items rows := by
  induction items generalizing index rows with
  | nil =>
    rw [List.forall₂_nil_left_iff, Row.ofJsonItems, Except.ok.injEq, eq_comm]
  | cons item items ih =>
    rw [Row.ofJsonItems, bind_eq_ok, List.forall₂_cons_left_iff]
    constructor
    · rintro ⟨row, hrow, h⟩
      obtain ⟨more, hmore, hall⟩ := bind_eq_ok.mp h
      exact ⟨row, more, Row.ofJson_eq_ok.mp hrow, ih.mp hmore, (Except.ok.inj hall).symm⟩
    · rintro ⟨row, more, hrow, hmore, rfl⟩
      exact ⟨row, Row.ofJson_eq_ok.mpr hrow, bind_eq_ok.mpr ⟨more, ih.mpr hmore, rfl⟩⟩

/-! ## Relations -/

/-- **The closing check finds no fault.**  Rows of cells of the right kinds, under distinct names,
make a relation. -/
theorem Relation.build_of_isRow {heading : Heading} {items : List Json} {rows : List Row}
    (hheading : heading.names.Nodup) (hrows : List.Forall₂ (IsRow heading) items rows) :
    Relation.build heading rows = .ok ⟨heading, rows⟩ := by
  refine Relation.build_eq_ok.mpr ⟨rfl, hheading, fun row hrow => ?_⟩
  obtain ⟨item, -, hcells⟩ := exists_left_of_forall₂ hrows hrow
  cases hcells with
  | intro hcells => exact hcells.kinds_eq

/-- **The loader yields the relation that is described**, and no other value describes one. -/
theorem Relation.ofJson_eq_ok {name : String} {json : Json} {relation : Relation} :
    Relation.ofJson name json = .ok relation ↔ json.IsRelation relation := by
  constructor
  · intro h
    cases json with
    | object members =>
      obtain ⟨columns, hcolumns, hafter⟩ := bind_eq_ok.mp h
      obtain ⟨items, hitems, hchecked⟩ := bind_eq_ok.mp hafter
      obtain ⟨heading, hheading, hread⟩ := bind_eq_ok.mp hchecked
      obtain ⟨rows, hrows, hbuild⟩ := bind_eq_ok.mp hread
      obtain ⟨hnodup, rfl⟩ := Heading.check_eq_ok.mp (mapError_eq_ok.mp hheading)
      obtain ⟨rfl, -⟩ := Relation.build_eq_ok.mp (mapError_eq_ok.mp hbuild)
      exact ⟨⟨members, rfl⟩, ⟨Heading.ofJson_eq_ok.mp hcolumns, hnodup⟩,
        items, Json.rowItems_eq_ok.mp hitems, Row.ofJsonItems_eq_ok.mp hrows⟩
    | _ => cases h
  · rintro ⟨⟨members, rfl⟩, ⟨hcolumns, hnodup⟩, items, hitems, hrows⟩
    refine bind_eq_ok.mpr ⟨_, Heading.ofJson_eq_ok.mpr hcolumns, ?_⟩
    refine bind_eq_ok.mpr ⟨_, Json.rowItems_eq_ok.mpr hitems, ?_⟩
    refine bind_eq_ok.mpr ⟨_, mapError_eq_ok.mpr (Heading.check_eq_ok.mpr ⟨hnodup, rfl⟩), ?_⟩
    refine bind_eq_ok.mpr ⟨_, Row.ofJsonItems_eq_ok.mpr hrows, ?_⟩
    exact mapError_eq_ok.mpr (Relation.build_of_isRow hnodup hrows)

end RelationScript
