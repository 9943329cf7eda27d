/-
# Conditions under other names

A condition is looked up by names and then read at positions.  Columns may be called otherwise in
another heading and stand elsewhere there: a condition with the other names chooses the same rows,
if the rows have the same cells at the other positions.

* `Heading.Counterpart` : columns of one kind in two headings;
* `Comparand.Renamed` : right-hand sides that differ in names of columns;
* `exists_select_of_counterpart` : selections from two headings make the same choice.
-/
import RelationScript.Proofs.Relation.Distinct
import RelationScript.Proofs.Relation.Trichotomy

namespace RelationScript

/-! ## Corresponding columns -/

/-- The columns with the two names in the two headings are of one kind, and their positions are
related. -/
def Heading.Counterpart (places : ℕ → ℕ → Prop) (heading heading' : Heading)
    (name name' : String) : Prop :=
  ∃ index column index' column', heading.find name = .ok (index, column) ∧
    heading'.find name' = .ok (index', column') ∧ column'.kind = column.kind ∧
    places index index'

/-- Right-hand sides that are the same constant, or columns with related names. -/
inductive Comparand.Renamed (names : String → String → Prop) : Comparand → Comparand → Prop
  | column {name name' : String} (h : names name name') : Renamed names (column name) (column name')
  | literal (value : Literal) : Renamed names (literal value) (literal value)

theorem Comparand.Renamed.imp {names names' : String → String → Prop}
    (hnames : ∀ name name', names name name' → names' name name') {comparand comparand' : Comparand}
    (h : comparand.Renamed names comparand') : comparand.Renamed names' comparand' := by
  cases h with
  | column h => exact .column (hnames _ _ h)
  | literal value => exact .literal value

/-- Sides that are the same constant, or cells at related positions. -/
inductive Side.Moved (places : ℕ → ℕ → Prop) : Side → Side → Prop
  | cellAt {index index' : ℕ} (h : places index index') : Moved places (cellAt index) (cellAt index')
  | constant (cell : Cell) : Moved places (constant cell) (constant cell)

variable {places : ℕ → ℕ → Prop} {heading heading' : Heading} {name name' : String}

theorem Heading.counterpart_of_getElem? (hnodup : heading.names.Nodup)
    (hnodup' : heading'.names.Nodup) {index index' : ℕ} (hname : heading.names[index]? = some name)
    (hname' : heading'.names[index']? = some name')
    (hkinds : heading'.kinds[index']? = heading.kinds[index]?) (hplace : places index index') :
    heading.Counterpart places heading' name name' := by
  obtain ⟨column, hfind, hkind⟩ := exists_find hnodup hname
  obtain ⟨column', hfind', hkind'⟩ := exists_find hnodup' hname'
  rw [hkind, hkind', Option.some.injEq] at hkinds
  exact ⟨index, column, index', column', hfind, hfind', hkinds, hplace⟩

namespace Relation

/-! ## The same condition -/

/-- Right-hand sides that correspond are looked up alike. -/
theorem exists_resolve_of_renamed {comparand comparand' : Comparand}
    (h : comparand.Renamed (heading.Counterpart places heading') comparand') {left left' : Column}
    (hleft : left'.kind = left.kind) {right : Side}
    (hright : resolve heading left comparand = .ok right) :
    ∃ right', resolve heading' left' comparand' = .ok right' ∧ right.Moved places right' := by
  cases h with
  | literal value =>
    obtain ⟨cell, hcell, rfl⟩ := resolve_literal_eq_ok.mp hright
    exact ⟨.constant cell, resolve_literal_eq_ok.mpr ⟨cell, hleft ▸ hcell, rfl⟩, .constant cell⟩
  | column hname =>
    obtain ⟨index, column, index', column', hfind, hfind', hkind, hplace⟩ := hname
    obtain ⟨found, other, hfound, hsame, rfl⟩ := resolve_column_eq_ok.mp hright
    obtain ⟨rfl, rfl⟩ := Prod.mk.inj (Except.ok.inj (hfind.symm.trans hfound))
    refine ⟨.cellAt index', resolve_column_eq_ok.mpr ⟨index', column', hfind', ?_, rfl⟩,
      .cellAt hplace⟩
    rw [hkind, hsame, hleft]

/-- Comparisons of the same cells come out the same. -/
theorem keeps_of_moved {index index' : ℕ} (hplace : places index index') {right right' : Side}
    (hright : right.Moved places right') {row row' : Row}
    (hcells : ∀ i i', places i i' → row'[i']? = row[i]?) (comparator : Comparator) :
    keeps index' comparator right' row' = keeps index comparator right row := by
  have hsides : right'.cell? row' = right.cell? row := by
    cases hright with
    | cellAt h => exact hcells _ _ h
    | constant cell => rfl
  rw [keeps, keeps, hcells _ _ hplace, hsides]

/-- If a condition is accepted, so is the same condition on the other heading, whatever the rows,
and it chooses the rows that have the same cells. -/
theorem exists_select_of_counterpart {a chosen : Relation} {comparator : Comparator}
    {comparand comparand' : Comparand}
    (hname : a.heading.Counterpart places heading' name name')
    (hcomparand : comparand.Renamed (a.heading.Counterpart places heading') comparand')
    (h : a.select name comparator comparand = .ok chosen) :
    ∃ kept kept' : Row → Bool, chosen = ⟨a.heading, a.rows.filter kept⟩ ∧
      (∀ rows, select ⟨heading', rows⟩ name' comparator comparand' =
        .ok ⟨heading', rows.filter kept'⟩) ∧
      Respects kept' ∧
      ∀ row row', (∀ i i', places i i' → row'[i']? = row[i]?) → kept' row' = kept row := by
  obtain ⟨index, left, right, hfind, hright, rfl⟩ := select_eq_ok.mp h
  obtain ⟨found, column, index', left', hfound, hfind', hkind, hplace⟩ := hname
  obtain ⟨rfl, rfl⟩ := Prod.mk.inj (Except.ok.inj (hfind.symm.trans hfound))
  obtain ⟨right', hright', hmoved⟩ := exists_resolve_of_renamed hcomparand hkind hright
  refine ⟨keeps index comparator right, keeps index' comparator right', rfl, ?_,
    respects_keeps index' comparator right', ?_⟩
  · intro rows
    exact select_eq_ok.mpr ⟨index', left', right', hfind', hright', rfl⟩
  · intro row row' hcells
    exact keeps_of_moved hplace hmoved hcells comparator

end Relation

end RelationScript
