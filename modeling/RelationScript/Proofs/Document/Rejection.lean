/-
# Faults of documents

A document that has not the shape of one is rejected for its first fault.  Relations are taken in
the order of their names; in each of them the schema comes before the rows, the names of the columns
before their kinds, and the length of a row before its cells.

* `Json.ColumnFault`, `Json.RowFault`, `Json.RelationFault` : what can be wrong with a part of a
  document, and what is told of it;
* `Json.FirstFault` : the first fault of a document;
* `Relation.ofJson_eq_error` : the loader tells the first fault of a relation.
-/
import RelationScript.Proofs.Document.Shape
import RelationScript.Proofs.Json.Order

namespace RelationScript

namespace Json

/-! ## What can be wrong -/

/-- The value describes no column. -/
inductive ColumnFault (relation : String) (json : Json) : LoadFault → Prop
  | incomplete (h : ∀ name keyword, json.member? "name" = some (string name) →
      json.member? "type" ≠ some (string keyword)) : ColumnFault relation json (.badColumn relation)
  | name {name keyword : String} (hname : json.member? "name" = some (string name))
      (hkeyword : json.member? "type" = some (string keyword)) (h : Text.isName name = false) :
      ColumnFault relation json (.badColumnName name)
  | kind {name keyword : String} (hname : json.member? "name" = some (string name))
      (hkeyword : json.member? "type" = some (string keyword)) (hisName : Text.isName name = true)
      (h : Kind.ofName? keyword = none) :
      ColumnFault relation json (.unknownKind relation keyword name)

variable [Decimal.Reader]

/-- The value is no row, and its index is told. -/
inductive RowFault (relation : String) (heading : Heading) (index : ℕ) : Json → LoadFault → Prop
  | notAnArray {json : Json} (h : ∀ items, json ≠ array items) :
      RowFault relation heading index json (.badRow relation index)
  | length {items : List Json} (h : items.length ≠ heading.length) :
      RowFault relation heading index (array items)
        (.algebra relation (.rowLength index heading.length items.length))
  | cell {items : List Json} (hlength : items.length = heading.length)
      (h : ∀ row, ¬ AreCells heading items row) :
      RowFault relation heading index (array items) (.badCell relation index)

/-- The value describes no relation; of several faults this is the first. -/
inductive RelationFault (name : String) (json : Json) : LoadFault → Prop
  | notAnObject (h : ∀ members, json ≠ object members) : RelationFault name json (.badRelation name)
  | schema {members : List (String × Json)} (hobject : json = object members)
      (h : ∀ items, json.member? "schema" ≠ some (array items)) :
      RelationFault name json (.badSchema name)
  | column {good rest : List Json} {bad : Json} {fault : LoadFault}
      (hschema : json.member? "schema" = some (array (good ++ bad :: rest)))
      (hgood : ∀ item ∈ good, ∃ column, IsColumn item column) (hbad : ColumnFault name bad fault) :
      RelationFault name json fault
  | rows {items : List Json} {heading : Heading} {value : Json}
      (hschema : json.member? "schema" = some (array items))
      (hcolumns : List.Forall₂ IsColumn items heading) (hrows : json.member? "rows" = some value)
      (h : ∀ items, value ≠ array items) : RelationFault name json (.badRows name)
  | repeatedColumn {items rows : List Json} {heading : Heading} {before after : List String}
      {column : String} (hschema : json.member? "schema" = some (array items))
      (hcolumns : List.Forall₂ IsColumn items heading) (hrows : json.HasRows rows)
      (hnames : heading.names = before ++ column :: after) (hcolumn : column ∈ before)
      (hbefore : before.Nodup) :
      RelationFault name json (.algebra name (.repeatedColumn column))
  | row {heading : Heading} {good rest : List Json} {bad : Json} {fault : LoadFault}
      (hheading : json.IsHeading heading) (hrows : json.HasRows (good ++ bad :: rest))
      (hgood : ∀ item ∈ good, ∃ row, IsRow heading item row)
      (hbad : RowFault name heading good.length bad fault) : RelationFault name json fault

/-- A member of a document has a name that no script can write, or describes no relation. -/
inductive MemberFault (name : String) (body : Json) : LoadFault → Prop
  | name (h : Text.isName name = false) : MemberFault name body (.badRelationName name)
  | body {fault : LoadFault} (hname : Text.isName name = true) (h : RelationFault name body fault) :
      MemberFault name body fault

/-- The value is no object, or has a member at fault and in the order of keys none before it. -/
inductive FirstFault (json : Json) : LoadFault → Prop
  | notAnObject (h : ∀ members, json ≠ object members) : FirstFault json .notAnObject
  | member {name : String} {body : Json} {fault : LoadFault}
      (hmember : json.member? name = some body)
      (hbefore : ∀ other more, json.member? other = some more → other < name → IsMember other more)
      (h : MemberFault name body fault) : FirstFault json fault

end Json

open Json (AreCells ColumnFault FirstFault HasRows IsColumn IsHeading IsMember IsRow MemberFault
  RelationFault RowFault)

/-! ## Columns -/

/-- A column without a name or keyword comes first, then its name, then its kind. -/
theorem Column.ofJson_eq_error {relation : String} {json : Json} {fault : LoadFault} :
    Column.ofJson relation json = .error fault ↔ ColumnFault relation json fault := by
  unfold Column.ofJson
  constructor
  · intro h
    split at h
    next name keyword hname hkeyword =>
      rw [Json.bind_string?_eq_some] at hname hkeyword
      split at h
      next hisName =>
        split at h
        next => cases h
        next hkind =>
          obtain rfl := Except.error.inj h
          exact .kind hname hkeyword hisName hkind
      next hisName =>
        obtain rfl := Except.error.inj h
        exact .name hname hkeyword (Bool.of_not_eq_true hisName)
    next hmissing =>
      obtain rfl := Except.error.inj h
      refine .incomplete fun name keyword hname hkeyword => ?_
      exact hmissing name keyword (Json.bind_string?_eq_some.mpr hname)
        (Json.bind_string?_eq_some.mpr hkeyword)
  · rintro (hmissing | ⟨hname, hkeyword, hisName⟩ | ⟨hname, hkeyword, hisName, hkind⟩)
    · split
      next name keyword hname hkeyword =>
        rw [Json.bind_string?_eq_some] at hname hkeyword
        exact absurd hkeyword (hmissing name keyword hname)
      next => rfl
    · rw [Json.bind_string?_eq_some.mpr hname, Json.bind_string?_eq_some.mpr hkeyword]
      dsimp only
      rw [hisName, if_neg Bool.false_ne_true]
    · rw [Json.bind_string?_eq_some.mpr hname, Json.bind_string?_eq_some.mpr hkeyword]
      dsimp only
      rw [if_pos hisName, hkind]

/-- A schema is rejected if it is no array, and else for the first of its items that is no column. -/
theorem Heading.ofJson_eq_error {relation : String} {json : Json} {fault : LoadFault} :
    Heading.ofJson relation json = .error fault ↔
      (∀ items, json.member? "schema" ≠ some (.array items)) ∧ fault = .badSchema relation ∨
      ∃ good bad rest, json.member? "schema" = some (.array (good ++ bad :: rest)) ∧
        (∀ item ∈ good, ∃ column, IsColumn item column) ∧ ColumnFault relation bad fault := by
  rw [Heading.ofJson]
  cases hitems : (json.member? "schema").bind Json.items? with
  | none =>
    have hnone : ∀ items, json.member? "schema" ≠ some (.array items) := by
      intro items h
      rw [Json.bind_items?_eq_some.mpr h] at hitems
      cases hitems
    constructor
    · intro h
      exact Or.inl ⟨hnone, (Except.error.inj h).symm⟩
    · rintro (⟨-, rfl⟩ | ⟨good, bad, rest, hschema, -⟩)
      · rfl
      · exact absurd hschema (hnone _)
  | some items =>
    have hschema := Json.bind_items?_eq_some.mp hitems
    dsimp only
    rw [mapM_eq_error, hschema]
    simp only [Column.ofJson_eq_error, Column.ofJson_eq_ok]
    constructor
    · rintro ⟨good, bad, rest, rfl, hgood, hbad⟩
      exact Or.inr ⟨good, bad, rest, rfl, hgood, hbad⟩
    · rintro (⟨hnone, -⟩ | ⟨good, bad, rest, hsame, hgood, hbad⟩)
      · exact absurd rfl (hnone items)
      · obtain rfl : items = good ++ bad :: rest := by simpa using hsame
        exact ⟨good, bad, rest, rfl, hgood, hbad⟩

/-- Only an array may stand under `rows`. -/
theorem Json.rowItems_eq_error {relation : String} {json : Json} {fault : LoadFault} :
    json.rowItems relation = .error fault ↔ ∃ value, json.member? "rows" = some value ∧
      (∀ items, value ≠ .array items) ∧ fault = .badRows relation := by
  unfold Json.rowItems
  constructor
  · intro h
    split at h
    next => cases h
    next => cases h
    next value hvalue hrows =>
      exact ⟨value, hrows, fun items => hvalue items, (Except.error.inj h).symm⟩
  · rintro ⟨value, hrows, hvalue, rfl⟩
    rw [hrows]
    cases value with
    | array items => exact absurd rfl (hvalue items)
    | _ => rfl

/-! ## Rows -/

variable [Decimal.Reader]

/-- The number of cells is compared before any of them is read. -/
theorem Row.ofJson_eq_error {relation : String} {heading : Heading} {index : ℕ} {json : Json}
    {fault : LoadFault} :
    Row.ofJson relation heading index json = .error fault ↔
      RowFault relation heading index json fault := by
  unfold Row.ofJson
  constructor
  · intro h
    split at h
    next hnone =>
      obtain rfl := Except.error.inj h
      refine .notAnArray fun items hitems => ?_
      rw [hitems] at hnone
      cases hnone
    next items hitems =>
      obtain rfl := Json.eq_array_of_items? hitems
      split at h
      next hlength =>
        obtain rfl := Except.error.inj h
        exact .length hlength
      next hlength =>
        have hlength := not_not.mp hlength
        split at h
        next => cases h
        next hnone =>
          obtain rfl := Except.error.inj h
          refine .cell hlength fun row hcells => ?_
          rw [(Row.ofJson?_eq_some hlength).mpr hcells] at hnone
          cases hnone
  · rintro (hnone | hlength | ⟨hlength, hcells⟩)
    · cases json with
      | array items => exact absurd rfl (hnone items)
      | _ => rfl
    · dsimp only [Json.items?]
      rw [if_pos hlength]
    · dsimp only [Json.items?]
      rw [if_neg (not_not_intro hlength)]
      split
      next row hrow => exact absurd ((Row.ofJson?_eq_some hlength).mp hrow) (hcells row)
      next => rfl

/-- Rows are rejected for the first one at fault, and its index is told. -/
theorem Row.ofJsonItems_eq_error {relation : String} {heading : Heading} {index : ℕ}
    {items : List Json} {fault : LoadFault} :
    Row.ofJsonItems relation heading index items = .error fault ↔
      ∃ good bad rest, items = good ++ bad :: rest ∧
        (∀ item ∈ good, ∃ row, IsRow heading item row) ∧
          RowFault relation heading (index + good.length) bad fault := by
  induction items generalizing index with
  | nil => simp [Row.ofJsonItems]
  | cons item items ih =>
    rw [Row.ofJsonItems]
    constructor
    · intro h
      rcases bind_eq_error.mp h with h | ⟨row, hrow, h⟩
      · exact ⟨[], item, items, rfl, by simp, Row.ofJson_eq_error.mp h⟩
      · rcases bind_eq_error.mp h with h | ⟨_, _, h⟩
        · obtain ⟨good, bad, rest, rfl, hgood, hbad⟩ := ih.mp h
          refine ⟨item :: good, bad, rest, rfl, ?_, ?_⟩
          · exact List.forall_mem_cons.mpr ⟨⟨row, Row.ofJson_eq_ok.mp hrow⟩, hgood⟩
          · rwa [List.length_cons, Nat.add_comm good.length, ← Nat.add_assoc]
        · cases h
    · rintro ⟨good, bad, rest, hitems, hgood, hbad⟩
      cases good with
      | nil =>
        obtain ⟨rfl, rfl⟩ := List.cons.inj hitems
        exact bind_eq_error.mpr (Or.inl (Row.ofJson_eq_error.mpr hbad))
      | cons first good =>
        obtain ⟨rfl, rfl⟩ := List.cons.inj hitems
        obtain ⟨⟨row, hrow⟩, hgood⟩ := List.forall_mem_cons.mp hgood
        rw [List.length_cons, Nat.add_comm good.length, ← Nat.add_assoc] at hbad
        have hmore := ih.mpr ⟨good, bad, rest, rfl, hgood, hbad⟩
        exact bind_eq_error.mpr
          (Or.inr ⟨row, Row.ofJson_eq_ok.mpr hrow, bind_eq_error.mpr (Or.inl hmore)⟩)

/-! ## Relations -/

/-- What the loader tells is at fault: its steps are gone through in order. -/
theorem relationFault_of_ofJson {name : String} {json : Json} {fault : LoadFault}
    (h : Relation.ofJson name json = .error fault) : RelationFault name json fault := by
  cases json with
  | object members =>
    rcases bind_eq_error.mp h with hschema | ⟨columns, hcolumns, hafter⟩
    · rcases Heading.ofJson_eq_error.mp hschema with
        ⟨hnone, rfl⟩ | ⟨good, bad, rest, hitems, hgood, hbad⟩
      · exact .schema rfl hnone
      · exact .column hitems hgood hbad
    obtain ⟨schema, hitems, hforall⟩ := Heading.ofJson_eq_ok.mp hcolumns
    rcases bind_eq_error.mp hafter with hbadRows | ⟨items, hrowItems, hchecked⟩
    · obtain ⟨value, hrows, hvalue, rfl⟩ := Json.rowItems_eq_error.mp hbadRows
      exact .rows hitems hforall hrows hvalue
    have hrows := Json.rowItems_eq_ok.mp hrowItems
    rcases bind_eq_error.mp hchecked with hrepeated | ⟨heading, hheading, hread⟩
    · obtain ⟨cause, hcause, rfl⟩ := mapError_eq_error.mp hrepeated
      obtain ⟨column, hcolumn, rfl⟩ := Heading.check_eq_error.mp hcause
      obtain ⟨before, after, hnames, hmem, hbefore⟩ := Heading.repeated?_eq_some.mp hcolumn
      exact .repeatedColumn hitems hforall hrows hnames hmem hbefore
    obtain ⟨hnodup, rfl⟩ := Heading.check_eq_ok.mp (mapError_eq_ok.mp hheading)
    rcases bind_eq_error.mp hread with hbad | ⟨rows, hbuilt, hbuild⟩
    · obtain ⟨good, bad, rest, rfl, hgood, hbad⟩ := Row.ofJsonItems_eq_error.mp hbad
      rw [Nat.zero_add] at hbad
      exact .row ⟨⟨schema, hitems, hforall⟩, hnodup⟩ hrows hgood hbad
    · -- The closing check has nothing left to find.
      rw [Relation.build_of_isRow hnodup (Row.ofJsonItems_eq_ok.mp hbuilt)] at hbuild
      cases hbuild
  | _ =>
    obtain rfl := Except.error.inj h
    exact .notAnObject fun _ => Json.noConfusion

/-- What is at fault first is told: the steps before it succeed. -/
theorem ofJson_of_relationFault {name : String} {json : Json} {fault : LoadFault}
    (h : RelationFault name json fault) : Relation.ofJson name json = .error fault := by
  cases h with
  | notAnObject hobject =>
    cases json with
    | object members => exact absurd rfl (hobject members)
    | _ => rfl
  | schema hobject hnone =>
    subst hobject
    exact bind_eq_error.mpr (Or.inl (Heading.ofJson_eq_error.mpr (Or.inl ⟨hnone, rfl⟩)))
  | column hitems hgood hbad =>
    obtain ⟨members, rfl⟩ := Json.exists_object_of_member? hitems
    refine bind_eq_error.mpr (Or.inl (Heading.ofJson_eq_error.mpr (Or.inr ?_)))
    exact ⟨_, _, _, hitems, hgood, hbad⟩
  | rows hitems hcolumns hrows hvalue =>
    obtain ⟨members, rfl⟩ := Json.exists_object_of_member? hitems
    refine bind_eq_error.mpr (Or.inr ⟨_, Heading.ofJson_eq_ok.mpr ⟨_, hitems, hcolumns⟩, ?_⟩)
    exact bind_eq_error.mpr (Or.inl (Json.rowItems_eq_error.mpr ⟨_, hrows, hvalue, rfl⟩))
  | repeatedColumn hitems hcolumns hrows hnames hcolumn hbefore =>
    obtain ⟨members, rfl⟩ := Json.exists_object_of_member? hitems
    have hrepeated := Heading.repeated?_eq_some.mpr ⟨_, _, hnames, hcolumn, hbefore⟩
    have hcheck := Heading.check_eq_error.mpr ⟨_, hrepeated, rfl⟩
    refine bind_eq_error.mpr (Or.inr ⟨_, Heading.ofJson_eq_ok.mpr ⟨_, hitems, hcolumns⟩, ?_⟩)
    refine bind_eq_error.mpr (Or.inr ⟨_, Json.rowItems_eq_ok.mpr hrows, ?_⟩)
    exact bind_eq_error.mpr (Or.inl (mapError_eq_error.mpr ⟨_, hcheck, rfl⟩))
  | row hheading hrows hgood hbad =>
    obtain ⟨⟨schema, hitems, hcolumns⟩, hnodup⟩ := hheading
    obtain ⟨members, rfl⟩ := Json.exists_object_of_member? hitems
    have hcheck := Heading.check_eq_ok.mpr ⟨hnodup, rfl⟩
    refine bind_eq_error.mpr (Or.inr ⟨_, Heading.ofJson_eq_ok.mpr ⟨_, hitems, hcolumns⟩, ?_⟩)
    refine bind_eq_error.mpr (Or.inr ⟨_, Json.rowItems_eq_ok.mpr hrows, ?_⟩)
    refine bind_eq_error.mpr (Or.inr ⟨_, mapError_eq_ok.mpr hcheck, ?_⟩)
    refine bind_eq_error.mpr (Or.inl ?_)
    rw [← Nat.zero_add (List.length _)] at hbad
    exact Row.ofJsonItems_eq_error.mpr ⟨_, _, _, rfl, hgood, hbad⟩

/-- **The loader tells what is first at fault in a relation.** -/
theorem Relation.ofJson_eq_error {name : String} {json : Json} {fault : LoadFault} :
    Relation.ofJson name json = .error fault ↔ RelationFault name json fault :=
  ⟨relationFault_of_ofJson, ofJson_of_relationFault⟩

end RelationScript
