/-
# Scripts see sets of rows

The rows of a relation have an order, and a row may stand there more than once.  Neither decides
which rows a script comes to: from relations of the same sets of rows it leads to relations of the
same sets of rows, and it fails in the same way.  Nor do the options of a run decide it, since a
projection that drops repeats has the rows of one that keeps them.

* `SameRows` : two relations have the same heading and the same set of rows;
* `congruence_sameRows` : every operator respects it;
* `agree_of_sameRows` : and so do scripts.
-/
import RelationScript.Proofs.Relation.Inclusion
import RelationScript.Proofs.Script.Agreement

namespace RelationScript

/-- The relations have the same heading, and every row of one equals a row of the other. -/
structure SameRows (a b : Relation) : Prop where
  heading : a.heading = b.heading
  left : ∀ row ∈ a.rows, ∃ other ∈ b.rows, Row.Equal row other
  right : ∀ row ∈ b.rows, ∃ other ∈ a.rows, Row.Equal row other

/-! ## Operators -/

/-- A projection has the rows that are picked, whether it drops repeats or not. -/
theorem within_map_pick (dedup : Bool) (indices : List ℕ) (rows : List Row) :
    Relation.Within (Relation.projectRows dedup indices rows) (rows.map (pick indices)) ∧
      Relation.Within (rows.map (pick indices)) (Relation.projectRows dedup indices rows) := by
  have hself := Relation.within_of_subset (List.Subset.refl (rows.map (pick indices)))
  cases dedup with
  | false => exact ⟨hself, hself⟩
  | true => exact Relation.within_distinct _

theorem within_projectRows (dedup dedup' : Bool) (indices : List ℕ) {rows rows' : List Row}
    (h : Relation.Within rows rows') :
    Relation.Within (Relation.projectRows dedup indices rows)
      (Relation.projectRows dedup' indices rows') := by
  have hpicked : Relation.Within (rows.map (pick indices)) (rows'.map (pick indices)) :=
    h.map fun _ _ hrow => rel_pick hrow indices
  exact ((within_map_pick dedup indices rows).1.trans hpicked).trans
    (within_map_pick dedup' indices rows').2

theorem within_select (index : ℕ) (comparator : Comparator) (right : Side) {rows rows' : List Row}
    (h : Relation.Within rows rows') :
    Relation.Within (rows.filter (Relation.keeps index comparator right))
      (rows'.filter (Relation.keeps index comparator right)) := by
  refine h.filter fun row row' hequal hkept => ?_
  rwa [← Relation.keeps_eq hequal index comparator right]

/-- Operators make relations of the same sets of rows from such relations, and this whether
projections drop repeats or not. -/
theorem congruence_sameRows (options options' : Options) :
    Congruence options options' (fun _ => True) SameRows := by
  have hiff : ∀ a b : Relation, SameRows a b ↔
      a.heading = b.heading ∧ Relation.Within a.rows b.rows ∧ Relation.Within b.rows a.rows :=
    fun a b => ⟨fun h => ⟨h.heading, h.left, h.right⟩, fun h => ⟨h.1, h.2.1, h.2.2⟩⟩
  refine Congruence.of_rows
    (fun rows rows' => Relation.Within rows rows' ∧ Relation.Within rows' rows) hiff ?_ ?_ ?_ ?_
  · rintro operator _ _ - left left' right right' ⟨hleft, hleft'⟩ ⟨hright, hright'⟩
    cases operator with
    | union => exact ⟨hleft.combineRows_union hright, hleft'.combineRows_union hright'⟩
    | intersection =>
      exact ⟨hleft.combineRows_intersection hright, hleft'.combineRows_intersection hright'⟩
    | difference =>
      -- What is taken away has to shrink where the rest grows.
      exact ⟨hleft.combineRows_difference hright', hleft'.combineRows_difference hright⟩
  · rintro left left' right right' ⟨hleft, hleft'⟩ ⟨hright, hright'⟩
    exact ⟨hleft.productRows hright, hleft'.productRows hright'⟩
  · rintro indices rows rows' ⟨h, h'⟩
    exact ⟨within_projectRows _ _ indices h, within_projectRows _ _ indices h'⟩
  · rintro index comparator right rows rows' ⟨h, h'⟩
    exact ⟨within_select index comparator right h, within_select index comparator right h'⟩

/-! ## Scripts -/

/-- **Scripts see sets of rows.**  From two stores that bind the same names, to relations of the
same headings and sets of rows, a script fails with the same fault at the same line, or leads to
two such stores again.  The options of the two runs may differ. -/
theorem agree_of_sameRows {store store' : Store} (h : store.Related SameRows store')
    (options options' : Options) (lines : List String) :
    Agree (Store.Related SameRows) (Script.run options store lines)
      (Script.run options' store' lines) ∧
    Script.firstFault? options store lines = Script.firstFault? options' store' lines :=
  ⟨(congruence_sameRows options options').run h lines,
    (congruence_sameRows options options').firstFault? h lines⟩

/-- Two rows, and the same in another order, one of them twice and one with another scale. -/
theorem agree_of_shuffledRows :
    ∃ store store' : Store,
      store.find? "A" = some ⟨[⟨"x", .numeric⟩], [[.number ⟨false, 15, 1, by decide, by decide⟩],
        [.number .zero]]⟩ ∧
      store'.find? "A" = some ⟨[⟨"x", .numeric⟩], [[.number .zero],
        [.number ⟨false, 150, 2, by decide, by decide⟩], [.number .zero]]⟩ ∧
      store.Related SameRows store' ∧
      Agree (Store.Related SameRows)
        (Script.run ⟨true⟩ store ["A \x5c A[x > 0] -> B", "A * B -> A"])
        (Script.run ⟨false⟩ store' ["A \x5c A[x > 0] -> B", "A * B -> A"]) := by
  have hhalf : (⟨false, 15, 1, by decide, by decide⟩ : Decimal).value =
      (⟨false, 150, 2, by decide, by decide⟩ : Decimal).value := by
    norm_num [Decimal.value, Decimal.signedMantissa]
  have hstores : (Store.empty.bind "A" ⟨[⟨"x", .numeric⟩],
        [[.number ⟨false, 15, 1, by decide, by decide⟩], [.number .zero]]⟩).Related SameRows
      (Store.empty.bind "A" ⟨[⟨"x", .numeric⟩], [[.number .zero],
        [.number ⟨false, 150, 2, by decide, by decide⟩], [.number .zero]]⟩) := by
    refine Store.Related.empty.bind "A" ⟨rfl, ?_, ?_⟩
    · simp only [List.forall_mem_cons, List.not_mem_nil, false_imp_iff, implies_true, and_true]
      exact ⟨⟨_, by simp, .cons (.number hhalf) .nil⟩, ⟨_, by simp, .cons (.refl _) .nil⟩⟩
    · simp only [List.forall_mem_cons, List.not_mem_nil, false_imp_iff, implies_true, and_true]
      exact ⟨⟨_, by simp, .cons (.refl _) .nil⟩, ⟨_, by simp, .cons (.number hhalf.symm) .nil⟩,
        ⟨_, by simp, .cons (.refl _) .nil⟩⟩
  refine ⟨_, _, ?_, ?_, hstores, (agree_of_sameRows hstores ⟨true⟩ ⟨false⟩ _).1⟩
  · rw [Store.find?_bind, if_pos rfl]
  · rw [Store.find?_bind, if_pos rfl]

end RelationScript
