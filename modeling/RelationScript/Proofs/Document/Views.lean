/-
# Views of a row

The cells of a row can be looked up in its record, in the map that the record is turned into and in
its JSON object.  Of several cells under one name the record has the first, and the others have the
last.  In a well-formed relation no name stands for two columns and no row is short, so the views are
one.

* `Relation.RowViews` : the record and the object of a row have its cells, each under its name;
* `Relation.ViewsAgree` : all rows of a relation are seen so;
* `viewsAgree_of_wellFormed` : the rows of well-formed relations are.
-/
import RelationScript.Proofs.Json.Order
import RelationScript.Proofs.Relation.Lookup
import RelationScript.Proofs.Script.WellFormed

namespace RelationScript

/-! ## Views -/

/-- The record, as a list and as a map, and the JSON object have the cells of the row under the names
of the columns, and nothing else. -/
structure Relation.RowViews (heading : Heading) (row : Row) (record : Record) (json : Json) : Prop where
  /-- Under the name of a column each has the cell at its position. -/
  found : ∀ name index, heading.position? name = some index → ∃ cell, row[index]? = some cell ∧
    record.get? name = some cell ∧ record.toMap[name]? = some cell ∧
      json.member? name = some cell.toJson
  /-- Under another name none has anything. -/
  missing : ∀ name, heading.position? name = none → record.get? name = none ∧
    record.toMap[name]? = none ∧ json.member? name = none
  /-- The map has one entry for each column. -/
  size : record.toMap.size = heading.length
  /-- The value is an object with one member for each column. -/
  members : ∃ members, json = .object members ∧ members.length = heading.length

/-- The records of the relation and the items of its JSON array are views of its rows. -/
structure Relation.ViewsAgree (relation : Relation) (items : List Json) : Prop where
  array : relation.toJson = .array items
  length_items : items.length = relation.rows.length
  length_records : relation.records.length = relation.rows.length
  row : ∀ (index : ℕ) row record item, relation.rows[index]? = some row →
    relation.records[index]? = some record → items[index]? = some item →
      Relation.RowViews relation.heading row record item

/-! ## Records without repeated names -/

namespace Record

variable {record : Record} {name : String} {cell : Cell}

theorem get?_eq_some (h : (record.map Prod.fst).Nodup) :
    record.get? name = some cell ↔ (name, cell) ∈ record :=
  Json.lookup_eq_some_iff h

/-- The map is the one that the library makes of the list. -/
theorem toMap_eq_ofList (record : Record) : record.toMap = Std.ExtTreeMap.ofList record := by
  have hfold : ∀ map : Std.ExtTreeMap String Cell,
      record.foldl (fun map entry => map.insert entry.1 entry.2) map = map.insertMany record := by
    induction record with
    | nil => intro map; simp
    | cons entry record ih =>
      intro map
      rw [List.foldl_cons, ih, Std.ExtTreeMap.insertMany_cons]
  rw [Std.ExtTreeMap.ofList_eq_insertMany_empty]
  exact hfold ∅

/-- Distinct names are distinct for the order that maps are kept in. -/
theorem distinct_of_nodup (h : (record.map Prod.fst).Nodup) :
    record.Pairwise fun a b => ¬ compare a.1 b.1 = .eq := by
  refine (List.pairwise_map.mp h).imp fun hne heq => ?_
  exact hne (Std.LawfulEqOrd.eq_of_compare heq)

/-- Under distinct names, a record and its map hold the same cells under the same names. -/
theorem getElem?_toMap_eq_some (h : (record.map Prod.fst).Nodup) :
    record.toMap[name]? = some cell ↔ (name, cell) ∈ record := by
  have hfound : ∀ {other}, (name, other) ∈ record → record.toMap[name]? = some other := by
    intro other hmem
    rw [toMap_eq_ofList]
    exact Std.ExtTreeMap.getElem?_ofList_of_mem Std.ReflCmp.compare_self (distinct_of_nodup h) hmem
  constructor
  · intro hcell
    by_cases hname : name ∈ record.map Prod.fst
    · obtain ⟨⟨_, other⟩, hmem, rfl⟩ := List.mem_map.mp hname
      rw [hfound hmem] at hcell
      rwa [← Option.some.inj hcell]
    · have hmissing : (record.map Prod.fst).contains name = false := by simpa using hname
      rw [toMap_eq_ofList, Std.ExtTreeMap.getElem?_ofList_of_contains_eq_false hmissing] at hcell
      cases hcell
  · exact hfound

theorem size_toMap (h : (record.map Prod.fst).Nodup) : record.toMap.size = record.length := by
  rw [toMap_eq_ofList, Std.ExtTreeMap.size_ofList (distinct_of_nodup h)]

/-- Writing the cells of a record leaves its names alone. -/
theorem map_fst_toJson (record : Record) :
    (record.map fun (name, cell) => (name, cell.toJson)).map Prod.fst = record.map Prod.fst := by
  rw [List.map_map]
  rfl

/-- Under distinct names, the members of the object are the cells of the record, written out. -/
theorem member?_toJson_eq_some (h : (record.map Prod.fst).Nodup) {value : Json} :
    record.toJson.member? name = some value ↔ ∃ cell, (name, cell) ∈ record ∧ value = cell.toJson := by
  obtain ⟨members, hmembers, hperm⟩ := Json.exists_ofMembers_perm (by rwa [map_fst_toJson])
  have hordered : record.toJson.Ordered := Json.ordered_ofMembers _
  unfold toJson at hordered ⊢
  rw [hmembers] at hordered ⊢
  rw [Json.member?_eq_some hordered, hperm.mem_iff, List.mem_map]
  constructor
  · rintro ⟨⟨_, cell⟩, hmem, ⟨⟩⟩
    exact ⟨cell, hmem, rfl⟩
  · rintro ⟨cell, hmem, rfl⟩
    exact ⟨(name, cell), hmem, rfl⟩

/-- Under distinct names, a record is written as an object with one member for each cell. -/
theorem exists_toJson_eq_object (h : (record.map Prod.fst).Nodup) :
    ∃ members, record.toJson = .object members ∧ members.length = record.length := by
  obtain ⟨members, hmembers, hperm⟩ := Json.exists_ofMembers_perm (by rwa [map_fst_toJson])
  exact ⟨members, hmembers, by rw [hperm.length_eq, List.length_map]⟩

end Record

/-! ## Rows of well-formed relations -/

namespace Relation.WellFormed

variable {relation : Relation} {row : Row}

theorem length_names (h : relation.WellFormed) (hrow : row ∈ relation.rows) :
    relation.heading.names.length = row.length := by
  rw [h.length_eq hrow, Heading.names, List.length_map]

/-- The names of a record are those of the columns. -/
theorem map_fst_record (h : relation.WellFormed) (hrow : row ∈ relation.rows) :
    (relation.record row).map Prod.fst = relation.heading.names :=
  List.map_fst_zip (h.length_names hrow).le

/-- The entries of a record are what the heading finds. -/
theorem mem_record_iff (h : relation.WellFormed) {name : String} {cell : Cell} :
    (name, cell) ∈ relation.record row ↔
      ∃ index, relation.heading.position? name = some index ∧ row[index]? = some cell := by
  simp only [Heading.position?_eq_some_iff h.nodup]
  rw [record, List.mem_iff_getElem?]
  simp only [List.getElem?_zip_eq_some]

/-- A row has a cell wherever the heading finds a name. -/
theorem exists_cell_of_position? (h : relation.WellFormed) (hrow : row ∈ relation.rows)
    {name : String} {index : ℕ} (hindex : relation.heading.position? name = some index) :
    ∃ cell, row[index]? = some cell := by
  have hname := Heading.getElem?_of_position? hindex
  rw [Heading.names, List.getElem?_map, Option.map_eq_some_iff] at hname
  obtain ⟨column, hcolumn, -⟩ := hname
  obtain ⟨cell, hcell, -⟩ := h.exists_cell hcolumn hrow
  exact ⟨cell, hcell⟩

/-- The views of a row of a well-formed relation agree with the row, cell by cell. -/
theorem rowViews (h : relation.WellFormed) (hrow : row ∈ relation.rows) :
    RowViews relation.heading row (relation.record row) (relation.record row).toJson := by
  have hnodup : ((relation.record row).map Prod.fst).Nodup := by
    rw [h.map_fst_record hrow]
    exact h.nodup
  have hlength : (relation.record row).length = relation.heading.length := by
    rw [record, List.length_zip, h.length_names hrow, min_self, h.length_eq hrow]
  refine ⟨?_, ?_, ?_, ?_⟩
  · intro name index hindex
    obtain ⟨cell, hcell⟩ := h.exists_cell_of_position? hrow hindex
    have hmem := h.mem_record_iff.mpr ⟨index, hindex, hcell⟩
    exact ⟨cell, hcell, (Record.get?_eq_some hnodup).mpr hmem,
      (Record.getElem?_toMap_eq_some hnodup).mpr hmem,
      (Record.member?_toJson_eq_some hnodup).mpr ⟨cell, hmem, rfl⟩⟩
  · intro name hmissing
    have hnone : ∀ cell, (name, cell) ∉ relation.record row := by
      intro cell hmem
      obtain ⟨index, hindex, -⟩ := h.mem_record_iff.mp hmem
      rw [hmissing] at hindex
      cases hindex
    refine ⟨?_, ?_, ?_⟩ <;> refine Option.eq_none_iff_forall_ne_some.mpr fun found hfound => ?_
    · exact hnone found ((Record.get?_eq_some hnodup).mp hfound)
    · exact hnone found ((Record.getElem?_toMap_eq_some hnodup).mp hfound)
    · obtain ⟨cell, hmem, -⟩ := (Record.member?_toJson_eq_some hnodup).mp hfound
      exact hnone cell hmem
  · rw [Record.size_toMap hnodup, hlength]
  · rw [← hlength]
    exact Record.exists_toJson_eq_object hnodup

/-- A well-formed relation has views of all its rows, and they agree. -/
theorem exists_viewsAgree (h : relation.WellFormed) : ∃ items, relation.ViewsAgree items := by
  refine ⟨relation.records.map Record.toJson, rfl, ?_, ?_, ?_⟩
  · rw [records, List.length_map, List.length_map]
  · rw [records, List.length_map]
  · intro index row record item hrow hrecord hitem
    rw [List.getElem?_map, hrecord, Option.map_some] at hitem
    rw [records, List.getElem?_map, hrow, Option.map_some] at hrecord
    obtain rfl := Option.some.inj hrecord
    obtain rfl := Option.some.inj hitem
    exact h.rowViews (List.mem_of_getElem? hrow)

end Relation.WellFormed

/-- **All views of a row agree.**  In a well-formed relation, the record of a row, its map and its JSON
object have the cells of the row, each under the name of its column, and no column and no row is
lost.  All relations that a script binds are so. -/
theorem viewsAgree_of_wellFormed :
    (∀ relation : Relation, relation.WellFormed → ∃ items, relation.ViewsAgree items) ∧
      ∀ (options : Options) (store : Store) (lines : List String), store.WellFormed →
        ∀ reached ∈ Script.stores options store lines, ∀ name relation,
          reached.find? name = some relation → ∃ items, relation.ViewsAgree items := by
  refine ⟨fun relation h => h.exists_viewsAgree, ?_⟩
  intro options store lines hstore reached hreached name relation hrelation
  exact (hstore.stores lines reached hreached name relation hrelation).exists_viewsAgree

/-- A name that qualification makes of another one, and the product of the relation with itself. -/
theorem viewsAgree_of_selfProduct :
    let relation : Relation := ⟨[⟨"x", .string⟩, ⟨"A_1.x", .string⟩],
      [[.text "a", .text "b"], [.text "c", .text "d"]]⟩
    (Store.empty.bind "A" relation).WellFormed ∧ (∃ items, relation.ViewsAgree items) ∧
      ∀ reached ∈ Script.stores ⟨false⟩ (Store.empty.bind "A" relation) ["A * A -> B"],
        ∀ name relation, reached.find? name = some relation →
          ∃ items, relation.ViewsAgree items := by
  intro relation
  have hrelation : relation.WellFormed := ⟨by decide, by decide⟩
  have hstore : (Store.empty.bind "A" relation).WellFormed :=
    Store.All.bind Store.All.empty hrelation
  exact ⟨hstore, viewsAgree_of_wellFormed.1 relation hrelation,
    viewsAgree_of_wellFormed.2 ⟨false⟩ _ _ hstore⟩

/-- Under a repeated name the views would differ. -/
example :
    let relation : Relation := ⟨[⟨"x", .string⟩, ⟨"x", .string⟩], [[.text "a", .text "b"]]⟩
    let record := relation.record [.text "a", .text "b"]
    record.get? "x" = some (.text "a") ∧ record.toJson.member? "x" = some (.string "b") :=
  ⟨rfl, rfl⟩

end RelationScript
