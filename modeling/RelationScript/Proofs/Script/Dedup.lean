/-
# Dropping repeats in projections

Whether projections keep repeated rows is up to the options of a run, and the rows that they keep
go on into set operators, products and further projections.  Two runs that differ in it drift
apart in how often rows occur, and in nothing else.

* `SameDistinct` : two relations differ at most in repeated rows;
* `congruence_sameDistinct` : operators respect it, projections under either option;
* `agree_of_dedup` : and so do scripts.
-/
import RelationScript.Proofs.Relation.Distinct
import RelationScript.Proofs.Script.Agreement

namespace RelationScript

/-- The relations have the same heading, and the same rows in the same order once every row that
equals an earlier one is dropped. -/
structure SameDistinct (a b : Relation) : Prop where
  heading : a.heading = b.heading
  rows : (a.rows.eraseDupsBy fun row other => decide (Row.Equal row other)) =
    b.rows.eraseDupsBy fun row other => decide (Row.Equal row other)

theorem sameDistinct_iff (a b : Relation) :
    SameDistinct a b ↔
      a.heading = b.heading ∧ Relation.distinct a.rows = Relation.distinct b.rows := by
  rw [Relation.distinct_eq_eraseDupsBy, Relation.distinct_eq_eraseDupsBy]
  exact ⟨fun h => ⟨h.heading, h.rows⟩, fun h => ⟨h.1, h.2⟩⟩

/-! ## Operators -/

/-- Projections may drop repeats or keep them: the first occurrences are the same. -/
theorem distinct_projectRows (dedup : Bool) (indices : List ℕ) (rows : List Row) :
    Relation.distinct (Relation.projectRows dedup indices rows) =
      Relation.distinct ((Relation.distinct rows).map (pick indices)) := by
  rw [Relation.distinct_map_distinct fun _ _ hrow => rel_pick hrow indices]
  cases dedup with
  | false => rfl
  | true => exact Relation.distinct_distinct _

/-- Operators make relations that differ in repeats only of such relations. -/
theorem congruence_sameDistinct (options options' : Options) :
    Congruence options options' (fun _ => True) SameDistinct := by
  refine Congruence.of_rows (fun rows rows' => Relation.distinct rows = Relation.distinct rows')
    sameDistinct_iff ?_ ?_ ?_ ?_
  · intro operator _ _ _ left left' right right' hleft hright
    exact Relation.distinct_combineRows hleft hright operator
  · intro left left' right right' hleft hright
    rw [Relation.distinct_productRows, hleft, hright, ← Relation.distinct_productRows]
  · intro indices rows rows' h
    rw [distinct_projectRows, distinct_projectRows, h]
  · intro index comparator right rows rows' h
    have hrespects := Relation.respects_keeps index comparator right
    rw [Relation.distinct_filter hrespects, Relation.distinct_filter hrespects, h]

/-! ## Scripts -/

/-- **Dropping repeats changes nothing but repeats.**  Whether projections drop repeated rows or
keep them, a script fails with the same fault at the same line, or binds the same names, to
relations of the same heading whose rows are the same, in order, once every row that equals an
earlier one is dropped from them. -/
theorem agree_of_dedup (store : Store) (lines : List String) :
    Agree (Store.Related SameDistinct) (Script.run ⟨true⟩ store lines)
      (Script.run ⟨false⟩ store lines) ∧
    Script.firstFault? ⟨true⟩ store lines = Script.firstFault? ⟨false⟩ store lines := by
  have hstore : store.Related SameDistinct store := Store.Related.refl (fun _ => ⟨rfl, rfl⟩) store
  exact ⟨(congruence_sameDistinct ⟨true⟩ ⟨false⟩).run hstore lines,
    (congruence_sameDistinct ⟨true⟩ ⟨false⟩).firstFault? hstore lines⟩

end RelationScript
