/-
# Relations without equal rows

Where projections drop repeats, no operator makes two equal rows of relations that have none.  Set
operators and selections pass rows over, and a pair of rows in a product can be taken apart again,
because all rows of an operand have the same length.  Only a projection that keeps repeats can
make any.

* `Relation.DuplicateFree` : no two rows are equal;
* `Relation.DuplicateFree.combine`, … : the operators;
* `keeps_duplicateFree` : all queries, or those without a projection;
* `duplicateFree_of_mem_stores` : scripts.
-/
import RelationScript.Proofs.Query.Writing
import RelationScript.Proofs.Relation.Distinct
import RelationScript.Proofs.Script.WellFormed

namespace RelationScript

namespace Relation

/-- No two rows are equal. -/
def DuplicateFree (relation : Relation) : Prop :=
  relation.rows.Pairwise fun row other => ¬ Row.Equal row other

instance (relation : Relation) : Decidable relation.DuplicateFree :=
  inferInstanceAs (Decidable (relation.rows.Pairwise _))

/-! ## Operators -/

/-- After repeated rows are removed, no two rows are equal. -/
theorem pairwise_distinct (rows : List Row) :
    (distinct rows).Pairwise fun row other => ¬ Row.Equal row other := by
  induction rows with
  | nil => exact List.Pairwise.nil
  | cons row rows ih =>
    rw [distinct_cons]
    refine List.Pairwise.cons (fun other hother hequal => ?_) (ih.filter _)
    have hkept : ¬ Row.Equal other row := by simpa using (List.mem_filter.mp hother).2
    exact hkept (Row.equal_equivalence.symm hequal)

/-- Set operators bring no repeated rows into a result whose left side has none. -/
theorem DuplicateFree.combine {operator : SetOperator} {a b c : Relation} (ha : a.DuplicateFree)
    (h : a.combine operator b = .ok c) : c.DuplicateFree := by
  obtain ⟨-, rfl⟩ := combine_eq_ok.mp h
  cases operator with
  | union => exact pairwise_distinct _
  | intersection => exact pairwise_distinct _
  | difference => exact ha.filter _

/-- Rows put together are equal only if their parts are, provided that they are cut at the same
place. -/
theorem equal_append_iff {left left' right right' : Row} (hlength : left.length = left'.length) :
    Row.Equal (left ++ right) (left' ++ right') ↔
      Row.Equal left left' ∧ Row.Equal right right' := by
  constructor
  · intro h
    have hcanonical := Row.equal_iff.mp h
    rw [Row.canonical, Row.canonical, List.map_append, List.map_append] at hcanonical
    obtain ⟨hleft, hright⟩ := List.append_inj hcanonical (by simpa using hlength)
    exact ⟨Row.equal_iff.mpr hleft, Row.equal_iff.mpr hright⟩
  · rintro ⟨hleft, hright⟩
    exact hleft.append hright

/-- A product of relations without repeated rows has none. -/
theorem DuplicateFree.product {a b c : Relation} {leftLabel rightLabel : String}
    (hwellFormed : a.WellFormed) (ha : a.DuplicateFree) (hb : b.DuplicateFree)
    (h : a.product b leftLabel rightLabel = .ok c) : c.DuplicateFree := by
  obtain ⟨-, rfl⟩ := product_eq_ok.mp h
  show ((a.rows.flatMap fun row => b.rows.map (row ++ ·))).Pairwise _
  rw [List.pairwise_flatMap]
  constructor
  · -- Pairs with the same left row differ in the right one.
    intro row _
    rw [List.pairwise_map]
    exact hb.imp fun hne hequal => hne ((equal_append_iff rfl).mp hequal).2
  · -- Pairs with different left rows differ there.
    refine ha.imp_of_mem fun {row other} hrow hother hne => ?_
    intro pair hpair pair' hpair' hequal
    obtain ⟨right, -, rfl⟩ := List.mem_map.mp hpair
    obtain ⟨right', -, rfl⟩ := List.mem_map.mp hpair'
    have hcut : row.length = other.length := by
      rw [hwellFormed.length_eq hrow, hwellFormed.length_eq hother]
    exact hne ((equal_append_iff hcut).mp hequal).1

theorem duplicateFree_of_project {a b : Relation} {names : List String}
    (h : a.project names true = .ok b) : b.DuplicateFree := by
  obtain ⟨indices, -, -, rfl⟩ := project_eq_ok.mp h
  exact pairwise_distinct _

theorem DuplicateFree.select {a b : Relation} {name : String} {comparator : Comparator}
    {comparand : Comparand} (ha : a.DuplicateFree)
    (h : a.select name comparator comparand = .ok b) : b.DuplicateFree := by
  obtain ⟨index, left, right, -, -, rfl⟩ := select_eq_ok.mp h
  exact ha.filter _

end Relation

/-! ## Queries -/

/-- Whether the last operator of a query is a projection. -/
def Query.isProjection : Query → Bool
  | project _ _ _ => true
  | _ => false

/-- No operator makes equal rows, but a projection that keeps repeats. -/
theorem keeps_duplicateFree (options : Options) :
    Keeps options (fun query => options.dedup = true ∨ query.isProjection = false)
      fun relation => relation.WellFormed ∧ relation.DuplicateFree where
  combine _ ha hb h := ⟨ha.1.combine hb.1 h, ha.2.combine h⟩
  product _ ha hb h := ⟨ha.1.product hb.1 h, Relation.DuplicateFree.product ha.1 ha.2 hb.2 h⟩
  project hallowed ha h := by
    refine ⟨ha.1.project h, ?_⟩
    have hdedup := hallowed.resolve_right (by simp [Query.isProjection])
    rw [hdedup] at h
    exact Relation.duplicateFree_of_project h
  select _ ha h := ⟨ha.1.select h, ha.2.select h⟩

/-! ## Scripts -/

/-- No statement of the lines contains a projection. -/
def Script.ProjectionFree (lines : List String) : Prop :=
  ∀ line ∈ lines, ∀ statement, Statement.ofLine line = .ok statement →
    ∀ part ∈ statement.query.subqueries, part.isProjection = false

/-- **Without repeats in, none come out.**  Let no relation of a store have two equal rows.  Then
none does that a session comes to, and none that a run ends with, if projections drop repeats or
the script has no projections. -/
theorem duplicateFree_of_mem_stores {store : Store} (hwellFormed : store.WellFormed)
    (hstore : store.All Relation.DuplicateFree) {options : Options} {lines : List String}
    (hlines : options.dedup = true ∨ Script.ProjectionFree lines) :
    (∀ reached ∈ Script.stores options store lines, reached.All Relation.DuplicateFree) ∧
      ∀ final, Script.run options store lines = .ok final → final.All Relation.DuplicateFree := by
  have hinvariant : ∀ reached ∈ Script.stores options store lines,
      reached.All fun relation => relation.WellFormed ∧ relation.DuplicateFree := by
    refine Script.forall_mem_stores_of_mem (fun hreached hline hread hvalue => ?_) ?_
    · refine hreached.bind ((keeps_duplicateFree options).evaluate hreached ?_ hvalue)
      intro part hpart
      exact hlines.imp_right fun hfree => hfree _ hline _ hread part hpart
    · intro name relation hfound
      exact ⟨hwellFormed name relation hfound, hstore name relation hfound⟩
  have hstores : ∀ reached ∈ Script.stores options store lines,
      reached.All Relation.DuplicateFree := fun reached hreached name relation hfound =>
    (hinvariant reached hreached name relation hfound).2
  exact ⟨hstores, fun final hrun => hstores final (Script.mem_stores_of_run hrun)⟩

/-- Two rows that agree in one column: a projection to it that drops repeats, and a product that
keeps everything. -/
theorem duplicateFree_of_agreeingRows :
    ∃ store final : Store, store.find? "A" =
        some ⟨[⟨"x", .string⟩, ⟨"y", .string⟩], [[.text "a", .text "b"], [.text "a", .text "c"]]⟩ ∧
      store.WellFormed ∧ store.All Relation.DuplicateFree ∧
      Script.run ⟨true⟩ store ["A[x] -> B"] = .ok final ∧
      final.find? "B" = some ⟨[⟨"x", .string⟩], [[.text "a"]]⟩ ∧
      final.All Relation.DuplicateFree ∧
      Script.ProjectionFree ["A * A -> B"] ∧
      ∀ reached ∈ Script.stores ⟨false⟩ store ["A * A -> B"],
        reached.All Relation.DuplicateFree := by
  obtain ⟨store, hdef⟩ : ∃ store : Store, store = Store.empty.bind "A"
    ⟨[⟨"x", .string⟩, ⟨"y", .string⟩], [[.text "a", .text "b"], [.text "a", .text "c"]]⟩ := ⟨_, rfl⟩
  have hwellFormed : store.WellFormed :=
    hdef ▸ Store.All.bind Store.All.empty ⟨by decide, by decide⟩
  have hstore : store.All Relation.DuplicateFree := hdef ▸ Store.All.empty.bind (by decide)
  have hexecute : Script.execute ⟨true⟩ store "A[x] -> B" =
      .ok (some "B", store.bind "B" ⟨[⟨"x", .string⟩], [[.text "a"]]⟩) := by
    obtain ⟨statement, text, hread, hquery, htarget⟩ :=
      @exists_ofLine_projection "A" "x" "B" [] (by decide) (by decide) (by decide)
    have hline : "A" ++ "[" ++ ".".intercalate ["x"] ++ "] -> " ++ "B" = "A[x] -> B" := by cbv
    rw [hline] at hread
    refine Script.execute_eq_ok.mpr (Or.inr ⟨by cbv, statement, _, hread, ?_, by rw [htarget],
      by rw [htarget]⟩)
    rw [hquery, hdef]
    cbv
  have hrun : Script.run ⟨true⟩ store ["A[x] -> B"] = .ok _ :=
    (Script.run_cons_of_ok hexecute).trans rfl
  have hfree : Script.ProjectionFree ["A * A -> B"] := by
    intro line hline statement hread
    obtain rfl := List.mem_singleton.mp hline
    have hproduct : Statement.ofLine "A * A -> B" =
        .ok ⟨.product (.named "A") (.named "A"), "B"⟩ := by cbv
    obtain rfl := Except.ok.inj (hproduct.symm.trans hread)
    decide
  refine ⟨store, _, ?_, hwellFormed, hstore, hrun, ?_,
    (duplicateFree_of_mem_stores hwellFormed hstore (Or.inl rfl)).2 _ hrun, hfree,
    (duplicateFree_of_mem_stores hwellFormed hstore (Or.inr hfree)).1⟩
  · rw [hdef, Store.find?_bind, if_pos rfl]
  · rw [Store.find?_bind, if_pos rfl]

end RelationScript
