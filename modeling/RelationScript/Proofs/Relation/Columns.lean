/-
# Columns and their names

A document gives its columns plain names, and a product puts the label of a side and a dot before
some of them.  So the names of columns are paths, which a script can write, and since they are
distinct each of them picks one column.

* `IsPath` : names joined by single dots;
* `Relation.HasPaths` : all columns are called by paths, which operators keep so;
* `Relation.exists_project_column` : the projection to one column.
-/
import RelationScript.Proofs.Relation.Lookup
import RelationScript.Text.Name

namespace RelationScript

/-! ## Paths -/

/-- One name or several, joined by single dots. -/
def IsPath (path : String) : Prop :=
  ∃ first more, (∀ name ∈ first :: more, Text.isName name = true) ∧
    path = ".".intercalate (first :: more)

/-- A single name is a path. -/
theorem isPath_of_isName {name : String} (h : Text.isName name = true) : IsPath name := by
  refine ⟨name, [], ?_, String.intercalate_singleton.symm⟩
  rw [List.forall_mem_singleton]
  exact h

/-- A name and a dot before a path make a path. -/
theorem IsPath.qualify {label path : String} (hlabel : Text.isName label = true)
    (h : IsPath path) : IsPath (label ++ "." ++ path) := by
  obtain ⟨first, more, hall, rfl⟩ := h
  refine ⟨label, first :: more, ?_, String.intercalate_cons_cons.symm⟩
  rw [List.forall_mem_cons]
  exact ⟨hlabel, hall⟩

namespace Relation

/-- All columns are called by paths. -/
def HasPaths (relation : Relation) : Prop :=
  ∀ column ∈ relation.heading, IsPath column.name

/-- Set operators keep the columns of the left side, and so their paths. -/
theorem HasPaths.combine {operator : SetOperator} {a b c : Relation} (ha : a.HasPaths)
    (h : a.combine operator b = .ok c) : c.HasPaths := by
  obtain ⟨-, rfl⟩ := combine_eq_ok.mp h
  exact ha

/-- In a settled product a column has its old name, or that behind the label of its side. -/
theorem name_of_mem_productHeading {left right : Heading} {leftLabel rightLabel : String}
    {column : Column} (h : column ∈ productHeading left right leftLabel rightLabel) :
    ∃ label original, (label = leftLabel ∧ original ∈ left ∨
        label = rightLabel ∧ original ∈ right) ∧
      (column.name = original.name ∨ column.name = label ++ "." ++ original.name) := by
  obtain ⟨slot, hslot, rfl⟩ := List.mem_map.mp h
  have hmem := List.mem_map_of_mem (f := fun slot : Slot => (slot.label, slot.column)) hslot
  -- Rounds change neither the side of a slot nor its column.
  rw [map_settle fun _ => rfl] at hmem
  obtain ⟨original, horiginal, heq⟩ := List.mem_map.mp hmem
  obtain ⟨hlabel, hcolumn⟩ := Prod.mk.inj heq
  refine ⟨slot.label, slot.column, ?_, ?_⟩
  · rw [← hlabel, ← hcolumn]
    rcases List.mem_append.mp horiginal with horiginal | horiginal
    · obtain ⟨column, hmem, rfl⟩ := List.mem_map.mp horiginal
      exact Or.inl ⟨rfl, hmem⟩
    · obtain ⟨column, hmem, rfl⟩ := List.mem_map.mp horiginal
      exact Or.inr ⟨rfl, hmem⟩
  · show slot.name = _ ∨ slot.name = _
    rw [Slot.name]
    cases slot.qualified with
    | false => exact Or.inl rfl
    | true => exact Or.inr rfl

/-- A product puts labels before the columns of its sides, and labels that are names leave paths. -/
theorem HasPaths.product {a b c : Relation} {leftLabel rightLabel : String} (ha : a.HasPaths)
    (hb : b.HasPaths) (hleft : Text.isName leftLabel = true)
    (hright : Text.isName rightLabel = true) (h : a.product b leftLabel rightLabel = .ok c) :
    c.HasPaths := by
  obtain ⟨-, rfl⟩ := product_eq_ok.mp h
  intro column hcolumn
  obtain ⟨label, original, hside, hname⟩ := name_of_mem_productHeading hcolumn
  obtain ⟨hlabel, hpath⟩ : Text.isName label = true ∧ IsPath original.name := by
    rcases hside with ⟨rfl, horiginal⟩ | ⟨rfl, horiginal⟩
    · exact ⟨hleft, ha original horiginal⟩
    · exact ⟨hright, hb original horiginal⟩
  rcases hname with hname | hname
  · rw [hname]
    exact hpath
  · rw [hname]
    exact hpath.qualify hlabel

/-- What is picked was there before. -/
theorem mem_of_mem_pick {α : Type} {indices : List ℕ} {entries : List α} {a : α}
    (h : a ∈ pick indices entries) : a ∈ entries := by
  obtain ⟨index, -, hindex⟩ := List.mem_filterMap.mp h
  exact List.mem_of_getElem? hindex

theorem HasPaths.project {a b : Relation} {names : List String} {dedup : Bool}
    (ha : a.HasPaths) (h : a.project names dedup = .ok b) : b.HasPaths := by
  obtain ⟨indices, -, -, rfl⟩ := project_eq_ok.mp h
  exact fun column hcolumn => ha column (mem_of_mem_pick hcolumn)

/-- A selection keeps the columns, and so their paths. -/
theorem HasPaths.select {a b : Relation} {name : String} {comparator : Comparator}
    {comparand : Comparand} (ha : a.HasPaths)
    (h : a.select name comparator comparand = .ok b) : b.HasPaths := by
  obtain ⟨-, -, -, -, -, rfl⟩ := select_eq_ok.mp h
  exact ha

/-! ## One column -/

theorem pick_singleton {α : Type} (index : ℕ) (entries : List α) :
    pick [index] entries = entries[index]?.toList := by
  cases h : entries[index]? <;> simp [pick, h]

/-- A partial function that is defined on a whole list gives a list of values. -/
theorem exists_map_some {α β : Type} {f : α → Option β} {l : List α}
    (h : ∀ a ∈ l, ∃ b, f a = some b) : ∃ bs : List β, l.map f = bs.map some := by
  induction l with
  | nil => exact ⟨[], rfl⟩
  | cons a l ih =>
    rw [List.forall_mem_cons] at h
    obtain ⟨b, hb⟩ := h.1
    obtain ⟨bs, hbs⟩ := ih h.2
    exact ⟨b :: bs, by rw [List.map_cons, List.map_cons, hb, hbs]⟩

/-- In a well-formed relation every row has a cell for each column. -/
theorem WellFormed.exists_cells {relation : Relation} (h : relation.WellFormed) {index : ℕ}
    {column : Column} (hcolumn : relation.heading[index]? = some column) :
    ∃ cells : List Cell, relation.rows.map (·[index]?) = cells.map some := by
  refine exists_map_some fun row hrow => ?_
  obtain ⟨cell, hcell, -⟩ := h.exists_cell hcolumn hrow
  exact ⟨cell, hcell⟩

/-- The projection to a column has its cells, in the order of the rows. -/
theorem WellFormed.exists_project_column {relation : Relation} (h : relation.WellFormed)
    {index : ℕ} {column : Column} (hcolumn : relation.heading[index]? = some column) :
    ∃ cells : List Cell, relation.rows.map (·[index]?) = cells.map some ∧
      relation.project [column.name] false = .ok ⟨[column], cells.map ([·])⟩ := by
  obtain ⟨cells, hcells⟩ := h.exists_cells hcolumn
  refine ⟨cells, hcells, project_eq_ok.mpr ⟨[index], ?_, ?_, ?_⟩⟩
  · have hname : relation.heading.names[index]? = some column.name := by
      rw [Heading.names, List.getElem?_map, hcolumn, Option.map_some]
    exact Heading.locateAll_eq_ok.mpr (.cons ((Heading.position?_eq_some_iff h.nodup).mpr hname) .nil)
  · rw [pick_singleton, hcolumn]
    exact List.nodup_singleton _
  · have hrows : projectRows false [index] relation.rows = cells.map ([·]) := by
      calc projectRows false [index] relation.rows
          = relation.rows.map (pick [index]) := rfl
        _ = (relation.rows.map (·[index]?)).map Option.toList := by
            rw [List.map_map]
            exact List.map_congr_left fun row _ => pick_singleton index row
        _ = cells.map ([·]) := by
            rw [hcells, List.map_map]
            rfl
    rw [pick_singleton, hcolumn, hrows]
    rfl

end Relation

end RelationScript
