/-
# Columns by name

Operators look columns up by their names, and read and pick cells at the positions that they find.
A heading without repeated names has one position for each of its names.

* `Heading.position?_eq_some_iff` : distinct names are found where they stand;
* `Heading.find_eq_ok` : the look-up of a selection, by the positions of names;
* `Heading.locateAll_eq_ok`, `Heading.names_pick` : the look-up of a projection, and the names of the
  columns that it picks;
* `pick_pick`, `Heading.locateAll_pick` : what is picked of picked columns.
-/
import RelationScript.Proofs.Relation.Equality
import RelationScript.Proofs.Relation.WellFormed

namespace RelationScript

namespace Heading

variable {heading : Heading} {name : String} {index : ℕ}

/-! ## One name -/

/-- What is found under a name is called by it. -/
theorem getElem?_of_position? (h : heading.position? name = some index) :
    heading.names[index]? = some name := by
  rw [position?, List.findIdx?_eq_some_iff_getElem] at h
  obtain ⟨hlt, hname, -⟩ := h
  rw [names, List.getElem?_map, List.getElem?_eq_getElem hlt, Option.map_some, eq_of_beq hname]

/-- Each name of a heading has a position. -/
theorem exists_position? (h : name ∈ heading.names) : ∃ index, heading.position? name = some index := by
  obtain ⟨column, hcolumn, rfl⟩ := List.mem_map.mp h
  cases hposition : heading.position? column.name with
  | some index => exact ⟨index, rfl⟩
  | none =>
    rw [position?, List.findIdx?_eq_none_iff] at hposition
    simpa using hposition column hcolumn

/-- Distinct names are found where they stand. -/
theorem position?_eq_some_iff (hnodup : heading.names.Nodup) :
    heading.position? name = some index ↔ heading.names[index]? = some name := by
  constructor
  · exact getElem?_of_position?
  · intro h
    obtain ⟨other, hother⟩ := exists_position? (List.mem_of_getElem? h)
    have hlt : index < heading.names.length := (List.getElem?_eq_some_iff.mp h).1
    -- The name stands at one place only.
    rw [hother, ← (List.getElem?_inj hlt hnodup).mp (h.trans (getElem?_of_position? hother).symm)]

/-- A column is found by its name, at its position. -/
theorem find_eq_ok {column : Column} :
    heading.find name = .ok (index, column) ↔
      heading.position? name = some index ∧ heading[index]? = some column := by
  have hcolumn : heading.column? name = (heading.position? name).bind (heading[·]?) :=
    List.find?_eq_bind_findIdx?_getElem?
  rw [find, hcolumn]
  cases heading.position? name with
  | none => simp
  | some first =>
    rw [Option.bind_some, Option.some.injEq]
    constructor
    · intro h
      cases hfirst : heading[first]? with
      | none => simp [hfirst] at h
      | some found =>
        simp only [hfirst, Except.ok.injEq, Prod.mk.injEq] at h
        obtain ⟨rfl, rfl⟩ := h
        exact ⟨rfl, hfirst⟩
    · rintro ⟨rfl, hcolumn⟩
      rw [hcolumn]

/-- Among distinct names each finds its own column. -/
theorem find_eq_ok_of_getElem? (hnodup : heading.names.Nodup) {column : Column}
    (h : heading[index]? = some column) : heading.find column.name = .ok (index, column) := by
  refine find_eq_ok.mpr ⟨(position?_eq_some_iff hnodup).mpr ?_, h⟩
  rw [names, List.getElem?_map, h, Option.map_some]

/-- Among distinct names each stands for one column. -/
theorem exists_find (hnodup : heading.names.Nodup) (h : heading.names[index]? = some name) :
    ∃ column, heading.find name = .ok (index, column) ∧
      heading.kinds[index]? = some column.kind := by
  obtain ⟨column, hcolumn, rfl⟩ := Option.map_eq_some_iff.mp (List.getElem?_map ▸ h)
  refine ⟨column, find_eq_ok_of_getElem? hnodup hcolumn, ?_⟩
  rw [kinds, List.getElem?_map, hcolumn, Option.map_some]

/-! ## Several names -/

variable {names : List String} {indices : List ℕ}

theorem locate_eq_ok : heading.locate name = .ok index ↔ heading.position? name = some index := by
  rw [locate]
  cases heading.position? name <;> simp

theorem locateAll_eq_mapM (heading : Heading) (names : List String) :
    heading.locateAll names = names.mapM heading.locate := by
  induction names with
  | nil => rfl
  | cons name names ih => rw [locateAll, List.mapM_cons, ih]

/-- Each name is located by itself. -/
theorem locateAll_eq_ok :
    heading.locateAll names = .ok indices ↔
      List.Forall₂ (fun name index => heading.position? name = some index) names indices := by
  simp only [locateAll_eq_mapM, mapM_eq_ok, locate_eq_ok]

/-- Names of the heading are all located. -/
theorem exists_locateAll (h : names ⊆ heading.names) :
    ∃ indices, heading.locateAll names = .ok indices := by
  simp only [locateAll_eq_ok]
  exact exists_forall₂ fun name hname => exists_position? (h hname)

theorem subset_of_locateAll (h : heading.locateAll names = .ok indices) :
    names ⊆ heading.names := by
  intro name hname
  obtain ⟨index, -, hindex⟩ := exists_right_of_forall₂ (locateAll_eq_ok.mp h) hname
  exact List.mem_of_getElem? (getElem?_of_position? hindex)

theorem lt_of_locateAll (h : heading.locateAll names = .ok indices) :
    ∀ index ∈ indices, index < heading.length := by
  intro index hindex
  obtain ⟨name, -, hposition⟩ := exists_left_of_forall₂ (locateAll_eq_ok.mp h) hindex
  have hname := getElem?_of_position? hposition
  simpa [Heading.names] using (List.getElem?_eq_some_iff.mp hname).1

end Heading

/-! ## Picked columns -/

section

variable {α : Type} {entries : List α} {indices inner : List ℕ}

/-- What is picked stands in the order of the places it is picked from. -/
theorem getElem?_pick (h : ∀ index ∈ indices, index < entries.length) (place : ℕ) :
    (pick indices entries)[place]? = indices[place]?.bind (entries[·]?) := by
  induction indices generalizing place with
  | nil => rfl
  | cons index indices ih =>
    obtain ⟨hindex, hindices⟩ := List.forall_mem_cons.mp h
    rw [pick, List.filterMap_cons_some (List.getElem?_eq_getElem hindex)]
    cases place with
    | zero => simp [hindex]
    | succ place => exact ih hindices place

/-- Entries picked at the positions of names are listed as the names are. -/
theorem forall₂_pick {β : Type} {keys : List β} {listed : List β}
    (h : List.Forall₂ (fun key index => keys[index]? = some key) listed indices)
    (hlength : keys.length = entries.length) :
    List.Forall₂
      (fun key entry => ∃ index : ℕ, keys[index]? = some key ∧ entries[index]? = some entry)
      listed (pick indices entries) := by
  induction h with
  | nil => exact .nil
  | @cons key index listed indices hkey hmore ih =>
    have hlt : index < entries.length := hlength ▸ (List.getElem?_eq_some_iff.mp hkey).1
    have hentry := List.getElem?_eq_getElem hlt
    rw [pick, List.filterMap_cons_some hentry]
    exact .cons ⟨index, hkey, hentry⟩ ih

/-- What is picked of picked entries can be picked of all entries. -/
theorem pick_pick (h : ∀ index ∈ inner, index < entries.length) (outer : List ℕ) :
    pick outer (pick inner entries) = pick (pick outer inner) entries := by
  calc pick outer (pick inner entries)
      = outer.filterMap fun place => inner[place]?.bind (entries[·]?) :=
        List.filterMap_congr fun place _ => getElem?_pick h place
    _ = pick (pick outer inner) entries := List.filterMap_filterMap.symm

end

namespace Heading

variable {heading : Heading} {names more : List String} {indices inner : List ℕ}

/-- The located columns have the names that were looked up. -/
theorem names_pick (h : heading.locateAll names = .ok indices) :
    Heading.names (pick indices heading) = names := by
  rw [show Heading.names (pick indices heading) = pick indices heading.names from
    Relation.map_pick Column.name indices heading]
  have hrel := locateAll_eq_ok.mp h
  clear h
  induction hrel with
  | nil => rfl
  | cons hname _ ih =>
    have hname := getElem?_of_position? hname
    rw [pick, List.filterMap_cons_some hname]
    exact congrArg (_ :: ·) ih

/-- A name among picked columns is located where the column was picked. -/
theorem position?_of_pick (h : heading.locateAll names = .ok indices) {name : String} {place : ℕ}
    (hplace : position? (pick indices heading) name = some place) :
    ∃ index, indices[place]? = some index ∧ heading.position? name = some index := by
  have hname := getElem?_of_position? hplace
  rw [names_pick h] at hname
  have hrel := rel_getElem? (locateAll_eq_ok.mp h) place
  rw [hname] at hrel
  cases hindex : indices[place]? with
  | none =>
    rw [hindex] at hrel
    cases hrel
  | some index =>
    rw [hindex] at hrel
    cases hrel with
    | some hrel => exact ⟨index, rfl, hrel⟩

/-- Names are located among the picked columns of which the positions are picked. -/
theorem locateAll_pick (h : heading.locateAll names = .ok inner)
    (hmore : locateAll (pick inner heading) more = .ok indices) :
    heading.locateAll more = .ok (pick indices inner) := by
  rw [locateAll_eq_ok] at hmore ⊢
  induction hmore with
  | nil => exact .nil
  | cons hplace _ ih =>
    obtain ⟨index, hindex, hposition⟩ := position?_of_pick h hplace
    rw [pick, List.filterMap_cons_some hindex]
    exact .cons hposition ih

end Heading

end RelationScript
