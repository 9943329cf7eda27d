/-
# Every column stays addressable

Documents, labels of products and scripts each give names, and all of them give such names only as
a line can write.  So whatever a script has made of a document, each column of each relation can
be picked by its name.

* `Store.Addressable` : relations have names, and columns have paths;
* `Store.addressable_of_ofJson`, `Store.Addressable.stores` : documents describe such stores, and
  sessions keep them so;
* `execute_projection_of_run` : the line that picks a column, and what it binds.
-/
import RelationScript.Proofs.Document.Shape
import RelationScript.Proofs.Query.Writing
import RelationScript.Proofs.Relation.Columns

namespace RelationScript

/-- Every bound name is a name, and every column of the relation bound to it has a path. -/
def Store.Addressable (store : Store) : Prop :=
  ∀ name relation, store.find? name = some relation →
    Text.isName name = true ∧ relation.HasPaths

namespace Store.Addressable

theorem empty : Store.empty.Addressable := by
  simp [Addressable]

/-- Binding a proper name to a relation of paths keeps a store addressable. -/
theorem bind {store : Store} {name : String} {relation : Relation} (h : store.Addressable)
    (hname : Text.isName name = true) (hrelation : relation.HasPaths) :
    (store.bind name relation).Addressable := by
  intro other found hfound
  rw [find?_bind] at hfound
  split at hfound
  next heq =>
    obtain rfl := Option.some.inj hfound
    exact ⟨heq ▸ hname, hrelation⟩
  next => exact h other found hfound

end Store.Addressable

/-! ## Documents -/

/-- The columns of a document have plain names. -/
theorem Relation.hasPaths_of_ofJson {name : String} {json : Json} {relation : Relation}
    (h : Relation.ofJson name json = .ok relation) : relation.HasPaths :=
  fun _ hcolumn => isPath_of_isName ((Relation.ofJson_eq_ok.mp h).heading.isName hcolumn)

theorem Store.addressable_of_ofJson {json : Json} {store : Store}
    (h : Store.ofJson json = .ok store) : store.Addressable :=
  Store.forall_of_ofJson Store.Addressable.empty
    (fun hstore hname hrelation => hstore.bind hname (Relation.hasPaths_of_ofJson hrelation)) h

/-! ## Runs -/

/-- The labels of a product are names where its operands mention names only. -/
theorem keeps_hasPaths (options : Options) :
    Keeps options (fun query => ∀ name ∈ query.sources, Text.isName name = true)
      Relation.HasPaths where
  combine _ ha _ h := ha.combine h
  product := by
    intro left right a b c hallowed ha hb h
    simp only [Query.sources, List.forall_mem_append] at hallowed
    obtain ⟨hleft, hright⟩ := Query.isName_labels hallowed.1 hallowed.2
    exact ha.product hb hleft hright h
  project _ ha h := ha.project h
  select _ ha h := ha.select h

/-- Every store that a script reaches is addressable if the first one is. -/
theorem Store.Addressable.stores {options : Options} {store : Store} (hstore : store.Addressable)
    (lines : List String) :
    ∀ reached ∈ Script.stores options store lines, reached.Addressable := by
  refine Script.forall_mem_stores ?_ hstore lines
  intro store line statement relation hstore hline hvalue
  refine hstore.bind (isName_target_of_ofLine hline) ?_
  have hall : store.All Relation.HasPaths := fun name relation hfound =>
    (hstore name relation hfound).2
  refine (keeps_hasPaths options).evaluate hall (fun part hpart name hname => ?_) hvalue
  exact isName_of_ofLine hline (Query.sources_subset_of_mem_subqueries hpart hname)

/-! ## Projections to one column -/

/-- A column of a relation is projected by the query that names the relation and the path. -/
theorem Query.evaluate_project_column {store : Store} {options : Options} {name first : String}
    {more : List String} {text : String} {relation result : Relation}
    (hfound : store.find? name = some relation)
    (h : relation.project [".".intercalate (first :: more)] options.dedup = .ok result) :
    (Query.project (.named name) [.ofPath first more] text).evaluate store options =
      .ok result := by
  rw [Query.evaluate, Query.evaluate, hfound]
  refine bind_eq_ok.mpr ⟨relation, rfl, mapError_eq_ok.mpr ?_⟩
  rw [List.map_singleton, ColumnRef.columnName_ofPath]
  exact h

/-- A line that names a relation of the store and a column of it binds the column alone. -/
theorem Script.execute_projection {store : Store} (hstore : store.Addressable)
    {name : String} {relation : Relation} (hfound : store.find? name = some relation)
    (hrelation : relation.WellFormed) {index : ℕ} {column : Column}
    (hcolumn : relation.heading[index]? = some column) {target : String}
    (htarget : Text.isName target = true) :
    ∃ cells : List Cell, relation.rows.map (·[index]?) = cells.map some ∧
      execute ⟨false⟩ store (name ++ "[" ++ column.name ++ "] -> " ++ target) =
        .ok (some target, store.bind target ⟨[column], cells.map ([·])⟩) := by
  obtain ⟨hname, hpaths⟩ := hstore name relation hfound
  obtain ⟨first, more, hall, hpath⟩ := hpaths column (List.mem_of_getElem? hcolumn)
  obtain ⟨cells, hcells, hproject⟩ := hrelation.exists_project_column hcolumn
  refine ⟨cells, hcells, ?_⟩
  rw [hpath] at hproject ⊢
  obtain ⟨statement, text, hline, hquery, rfl⟩ := exists_ofLine_projection hname hall htarget
  rw [execute_eq_ok]
  refine Or.inr ⟨?_, statement, _, hline, ?_, rfl, rfl⟩
  · simp only [String.append_assoc]
    exact isSkipped_of_isName hname _
  · rw [hquery]
    exact Query.evaluate_project_column hfound hproject

/-- **Every column stays addressable.**  Whatever relations a script has made of those of a
document: they have names, their columns have paths, and the line that names a relation and one
of its columns binds a relation of that column alone, with its cells in the order of the rows. -/
theorem execute_projection_of_run {json : Json} {store final : Store}
    (hload : Store.ofJson json = .ok store) {options : Options} {lines : List String}
    (hrun : Script.run options store lines = .ok final) {name : String} {relation : Relation}
    (hfound : final.find? name = some relation) :
    Text.isName name = true ∧ (∀ column ∈ relation.heading, IsPath column.name) ∧
      ∀ (index : ℕ) (column : Column), relation.heading[index]? = some column →
        ∀ target, Text.isName target = true →
          ∃ cells : List Cell, relation.rows.map (·[index]?) = cells.map some ∧
            Script.execute ⟨false⟩ final (name ++ "[" ++ column.name ++ "] -> " ++ target) =
              .ok (some target, final.bind target ⟨[column], cells.map ([·])⟩) := by
  have hfinal := Script.mem_stores_of_run hrun
  have haddressable := (Store.addressable_of_ofJson hload).stores lines final hfinal
  have hwellFormed := (Store.wellFormed_of_ofJson hload).stores lines final hfinal
  obtain ⟨hname, hpaths⟩ := haddressable name relation hfound
  refine ⟨hname, hpaths, fun index column hcolumn target htarget => ?_⟩
  exact Script.execute_projection haddressable hfound (hwellFormed name relation hfound) hcolumn
    htarget

/-- A document, a product of its relation with itself, and the second column of that. -/
theorem execute_projection_of_selfProduct :
    ∃ store final : Store,
      Store.ofJson (.object [("A", .object
        [("schema", .array [.object [("name", .string "x"), ("type", .string "text")]]),
          ("rows", .array [.array [.string "a"], .array [.string "b"]])])]) = .ok store ∧
      Script.run ⟨true⟩ store ["A * A -> B"] = .ok final ∧
      Script.execute ⟨false⟩ final ("B" ++ "[" ++ "A_2.x" ++ "] -> " ++ "T") =
        .ok (some "T", final.bind "T" ⟨[⟨"A_2.x", .string⟩],
          [[.text "a"], [.text "b"], [.text "a"], [.text "b"]]⟩) := by
  have hload : Store.ofJson (.object [("A", .object
      [("schema", .array [.object [("name", .string "x"), ("type", .string "text")]]),
        ("rows", .array [.array [.string "a"], .array [.string "b"]])])]) =
      .ok (Store.empty.bind "A" ⟨[⟨"x", .string⟩], [[.text "a"], [.text "b"]]⟩) := by cbv
  have hexecute : Script.execute ⟨true⟩
      (Store.empty.bind "A" ⟨[⟨"x", .string⟩], [[.text "a"], [.text "b"]]⟩) "A * A -> B" =
      .ok (some "B", (Store.empty.bind "A" ⟨[⟨"x", .string⟩], [[.text "a"], [.text "b"]]⟩).bind "B"
        ⟨[⟨"A.x", .string⟩, ⟨"A_2.x", .string⟩], [[.text "a", .text "a"], [.text "a", .text "b"],
          [.text "b", .text "a"], [.text "b", .text "b"]]⟩) :=
    Script.execute_eq_ok.mpr (Or.inr ⟨by cbv,
      ⟨.product (.named "A") (.named "A"), "B"⟩, _, by cbv, by cbv, rfl, rfl⟩)
  have hrun : Script.run ⟨true⟩ _ ["A * A -> B"] = .ok _ :=
    (Script.run_cons_of_ok hexecute).trans rfl
  obtain ⟨-, -, hcolumns⟩ := execute_projection_of_run hload hrun
    ((Store.find?_bind _ "B" "B" _).trans (if_pos rfl))
  obtain ⟨cells, hcells, hprojection⟩ := hcolumns 1 ⟨"A_2.x", .string⟩ rfl "T" (by decide)
  obtain rfl : [Cell.text "a", .text "b", .text "a", .text "b"] = cells :=
    List.map_injective_iff.mpr (Option.some_injective Cell) hcells
  exact ⟨_, _, hload, hrun, hprojection⟩

end RelationScript
