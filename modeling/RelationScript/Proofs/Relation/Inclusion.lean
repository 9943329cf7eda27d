/-
# Rows of one relation among those of another

Seen as a set of rows, a relation has a row if one of its rows equals it, wherever this stands and
however often.  All operators but difference have the more rows the more rows their operands have,
and difference has the fewer the more rows its right operand has.

* `Within` : every row of one list equals a row of another;
* `Within.combineRows_union`, `Within.combineRows_intersection`, `Within.combineRows_difference` :
  set operators;
* `Within.productRows`, `Within.map`, `Within.filter` : products, projections and selections.
-/
import RelationScript.Proofs.Relation.Distinct

namespace RelationScript.Relation

/-- Every row of the first list equals one of the second. -/
def Within (rows rows' : List Row) : Prop :=
  ∀ row ∈ rows, ∃ other ∈ rows', Row.Equal row other

variable {rows rows' rows'' left left' right right' : List Row}

/-! ## An order on lists of rows -/

theorem within_of_subset (h : rows ⊆ rows') : Within rows rows' :=
  fun row hrow => ⟨row, h hrow, Row.equal_equivalence.refl row⟩

/-- Inclusion up to equal rows is transitive. -/
theorem Within.trans (h : Within rows rows') (h' : Within rows' rows'') : Within rows rows'' := by
  intro row hrow
  obtain ⟨other, hother, hequal⟩ := h row hrow
  obtain ⟨last, hlast, hequal'⟩ := h' other hother
  exact ⟨last, hlast, Row.equal_equivalence.trans hequal hequal'⟩

/-- A row that occurs among some rows occurs among any that include them. -/
theorem Within.occursIn (h : Within rows rows') {row : Row} (hrow : Row.occursIn rows row = true) :
    Row.occursIn rows' row = true := by
  rw [Row.occursIn_iff] at hrow ⊢
  obtain ⟨other, hother, hequal⟩ := hrow
  obtain ⟨last, hlast, hequal'⟩ := h other hother
  exact ⟨last, hlast, Row.equal_equivalence.trans (Row.equal_equivalence.symm hequal') hequal⟩

/-- Repeats make no difference. -/
theorem within_distinct (rows : List Row) :
    Within (distinct rows) rows ∧ Within rows (distinct rows) := by
  refine ⟨within_of_subset fun _ => mem_of_mem_distinct, fun row hrow => ?_⟩
  obtain ⟨other, hother, hequal⟩ := exists_mem_distinct hrow
  exact ⟨other, hother, Row.equal_equivalence.symm hequal⟩

theorem Within.distinct (h : Within rows rows') :
    Within (Relation.distinct rows) (Relation.distinct rows') :=
  ((within_distinct rows).1.trans h).trans (within_distinct rows').2

/-! ## Rows chosen and made -/

/-- Of the more rows, those are chosen that equal a chosen one. -/
theorem Within.filter {p p' : Row → Bool} (h : Within rows rows')
    (hp : ∀ row row', Row.Equal row row' → p row = true → p' row' = true) :
    Within (rows.filter p) (rows'.filter p') := by
  intro row hrow
  obtain ⟨hrow, hchosen⟩ := List.mem_filter.mp hrow
  obtain ⟨other, hother, hequal⟩ := h row hrow
  exact ⟨other, List.mem_filter.mpr ⟨hother, hp row other hequal hchosen⟩, hequal⟩

/-- Functions that respect equality of rows keep inclusion. -/
theorem Within.map {f : Row → Row} (h : Within rows rows')
    (hf : ∀ row row', Row.Equal row row' → Row.Equal (f row) (f row')) :
    Within (rows.map f) (rows'.map f) := by
  intro made hmade
  obtain ⟨row, hrow, rfl⟩ := List.mem_map.mp hmade
  obtain ⟨other, hother, hequal⟩ := h row hrow
  exact ⟨f other, List.mem_map_of_mem hother, hf row other hequal⟩

/-- The rows of a product grow with the rows of its sides. -/
theorem Within.productRows (hleft : Within left left') (hright : Within right right') :
    Within (productRows left right) (productRows left' right') := by
  intro pair hpair
  obtain ⟨row, hrow, hpair⟩ := List.mem_flatMap.mp hpair
  obtain ⟨other, hother, rfl⟩ := List.mem_map.mp hpair
  obtain ⟨row', hrow', hequal⟩ := hleft row hrow
  obtain ⟨other', hother', hequal'⟩ := hright other hother
  refine ⟨row' ++ other', ?_, hequal.append hequal'⟩
  exact List.mem_flatMap.mpr ⟨row', hrow', List.mem_map_of_mem hother'⟩

/-! ## Set operators -/

/-- The rows of a union grow with the rows of its sides. -/
theorem Within.combineRows_union (hleft : Within left left') (hright : Within right right') :
    Within (combineRows .union left right) (combineRows .union left' right') := by
  refine Within.distinct fun row hrow => ?_
  rcases List.mem_append.mp hrow with hrow | hrow
  · obtain ⟨other, hother, hequal⟩ := hleft row hrow
    exact ⟨other, List.mem_append_left _ hother, hequal⟩
  · obtain ⟨other, hother, hequal⟩ := hright row hrow
    exact ⟨other, List.mem_append_right _ hother, hequal⟩

/-- The rows of an intersection grow with the rows of its sides. -/
theorem Within.combineRows_intersection (hleft : Within left left') (hright : Within right right') :
    Within (combineRows .intersection left right) (combineRows .intersection left' right') := by
  refine Within.distinct (hleft.filter fun row row' hequal hrow => ?_)
  rw [← respects_occursIn right' row row' hequal]
  exact hright.occursIn hrow

/-- A difference grows with its left operand and shrinks with its right one. -/
theorem Within.combineRows_difference (hleft : Within left left') (hright : Within right' right) :
    Within (combineRows .difference left right) (combineRows .difference left' right') := by
  refine hleft.filter fun row row' hequal hrow => ?_
  rw [Bool.not_eq_true'] at hrow ⊢
  rw [← respects_occursIn right' row row' hequal]
  by_contra hoccurs
  have hfound := hright.occursIn (Bool.of_not_eq_false hoccurs)
  rw [hrow] at hfound
  cases hfound

end RelationScript.Relation
