/-
# Growing stores

When relations of a store gain rows, so does the value of a query without a difference.  Headings
and faults stay as they are, because no operator looks at rows for them.  A difference gains rows
with its left operand and loses rows with its right one, so it is monotone in one of them as long
as the relations that the other one mentions stay.

* `Relation.Grows` : the same heading, and every row of one relation equals a row of the other;
* `Query.Positive` : no operator of a query is a difference;
* `congruence_grows`, `agree_difference` : the operators;
* `evaluate_monotone` : queries.
-/
import RelationScript.Proofs.Script.RowSets

namespace RelationScript

/-! ## Relations that grow -/

/-- The relations have the same heading, and every row of the first equals one of the second. -/
structure Relation.Grows (a b : Relation) : Prop where
  heading : a.heading = b.heading
  rows : ∀ row ∈ a.rows, ∃ other ∈ b.rows, Row.Equal row other

namespace SameRows

variable {a b : Relation}

theorem grows (h : SameRows a b) : a.Grows b :=
  ⟨h.heading, h.left⟩

theorem grows_symm (h : SameRows a b) : b.Grows a :=
  ⟨h.heading.symm, h.right⟩

end SameRows

/-! ## Positive queries -/

namespace Query

/-- Whether the last operator of a query is a difference. -/
def isDifference : Query → Bool
  | combine .difference _ _ => true
  | _ => false

/-- No operator of the query is a difference. -/
def Positive (query : Query) : Prop :=
  ∀ part ∈ query.subqueries, part.isDifference = false

instance (query : Query) : Decidable query.Positive :=
  inferInstanceAs (Decidable (∀ part ∈ query.subqueries, part.isDifference = false))

/-- The relations that the query mentions have the same rows in both stores. -/
def SameSources (query : Query) (store store' : Store) : Prop :=
  ∀ name ∈ query.sources, Option.Rel SameRows (store.find? name) (store'.find? name)

end Query

/-! ## Operators -/

/-- All operators but difference make more rows of more rows. -/
theorem congruence_grows (options options' : Options) :
    Congruence options options' (fun query => query.isDifference = false) Relation.Grows := by
  have hiff : ∀ a b : Relation, a.Grows b ↔
      a.heading = b.heading ∧ Relation.Within a.rows b.rows :=
    fun a b => ⟨fun h => ⟨h.heading, h.rows⟩, fun h => ⟨h.1, h.2⟩⟩
  refine Congruence.of_rows Relation.Within hiff ?_ ?_ ?_ ?_
  · intro operator query query' hallowed left left' right right' hleft hright
    cases operator with
    | union => exact hleft.combineRows_union hright
    | intersection => exact hleft.combineRows_intersection hright
    | difference => cases hallowed
  · intro left left' right right' hleft hright
    exact hleft.productRows hright
  · intro indices rows rows' h
    exact within_projectRows _ _ indices h
  · intro index comparator right rows rows' h
    exact within_select index comparator right h

/-- A difference grows where its left operand grows and its right one shrinks. -/
theorem agree_difference {a a' b b' : Relation} (ha : a.Grows a') (hb : b'.Grows b) :
    Agree Relation.Grows (a.combine .difference b) (a'.combine .difference b') := by
  rw [Relation.combine, Relation.combine, ha.heading, ← hb.heading]
  by_cases h : a'.heading = b'.heading
  · rw [if_pos h, if_pos h]
    exact .ok ⟨rfl, Relation.Within.combineRows_difference ha.rows hb.rows⟩
  · rw [if_neg h, if_neg h]
    exact .error _

/-! ## Queries -/

variable {store store' : Store}

/-- A query without a difference grows with its sources. -/
theorem Query.Positive.evaluate {query : Query} (hquery : query.Positive)
    (h : store.Related Relation.Grows store') (options options' : Options) :
    Agree Relation.Grows (query.evaluate store options) (query.evaluate store' options') :=
  (congruence_grows options options').evaluate h hquery

/-- A query has the same rows over stores in which the relations that it names have the same rows.
-/
theorem Query.SameSources.evaluate {query : Query} (h : query.SameSources store store')
    (options options' : Options) :
    Agree SameRows (query.evaluate store options) (query.evaluate store' options') :=
  (congruence_sameRows options options').evaluate_of_sources h fun _ _ => trivial

/-- **Positive queries are monotone.**  Let every relation of a store grow, with its heading.  Then
a query without a difference fails with the same fault before and after, or its value grows with
the same heading.  So does a difference whose left operand is such a query, if no relation grows
that its right operand mentions.  If its right operand is such a query and no relation grows that
its left one mentions, then the difference shrinks instead. -/
theorem evaluate_monotone (h : store.Related Relation.Grows store') (options options' : Options) :
    (∀ query : Query, query.Positive →
      Agree Relation.Grows (query.evaluate store options) (query.evaluate store' options')) ∧
    (∀ left right : Query, left.Positive → right.SameSources store store' →
      Agree Relation.Grows ((Query.combine .difference left right).evaluate store options)
        ((Query.combine .difference left right).evaluate store' options')) ∧
    (∀ left right : Query, right.Positive → left.SameSources store store' →
      Agree (fun before after => after.Grows before)
        ((Query.combine .difference left right).evaluate store options)
        ((Query.combine .difference left right).evaluate store' options')) := by
  refine ⟨fun query hquery => hquery.evaluate h options options', ?_, ?_⟩
  · intro left right hpositive hsame
    refine (hpositive.evaluate h options options').bind fun a a' ha => ?_
    refine (hsame.evaluate options options').bind fun b b' hb => ?_
    exact (agree_difference ha hb.grows_symm).mapError _
  · intro left right hpositive hsame
    refine (hsame.evaluate options options').bind fun a a' ha => ?_
    refine (hpositive.evaluate h options options').bind fun b b' hb => ?_
    -- The difference grows on the way back.
    exact (agree_difference ha.grows_symm hb).swap.mapError _

/-- A relation gains the only row of a second one, and its old row is written with another scale.  A
product restricted to equal pairs grows, and so does what the first relation has beyond the second
one.  What the second one has beyond the first is lost. -/
theorem evaluate_monotone_of_gainedRow :
    ∃ (a a' b : Relation) (store store' : Store) (query : Query),
      a = ⟨[⟨"x", .numeric⟩], [[.number ⟨false, 15, 1, by decide, by decide⟩]]⟩ ∧
      a' = ⟨[⟨"x", .numeric⟩], [[.number .zero],
        [.number ⟨false, 150, 2, by decide, by decide⟩]]⟩ ∧
      b = ⟨[⟨"x", .numeric⟩], [[.number .zero]]⟩ ∧
      store = (Store.empty.bind "A" a).bind "B" b ∧
      store' = (Store.empty.bind "A" a').bind "B" b ∧
      store.Related Relation.Grows store' ∧
      query = .select (.product (.project (.combine .union (.named "A") (.named "B"))
        [⟨none, "x"⟩] "x") (.named "A")) ⟨⟨some "A", "x"⟩, .equal, .column ⟨some "_1", "x"⟩⟩ "" ∧
      query.Positive ∧
      Agree Relation.Grows (query.evaluate store ⟨true⟩) (query.evaluate store' ⟨true⟩) ∧
      query.evaluate store' ⟨true⟩ = .ok ⟨[⟨"_1.x", .numeric⟩, ⟨"A.x", .numeric⟩],
        [[.number .zero, .number .zero], [.number ⟨false, 150, 2, by decide, by decide⟩,
          .number ⟨false, 150, 2, by decide, by decide⟩]]⟩ ∧
      (Query.named "B").SameSources store store' ∧
      Agree Relation.Grows
        ((Query.combine .difference (.named "A") (.named "B")).evaluate store ⟨true⟩)
        ((Query.combine .difference (.named "A") (.named "B")).evaluate store' ⟨true⟩) ∧
      Agree (fun before after => after.Grows before)
        ((Query.combine .difference (.named "B") (.named "A")).evaluate store ⟨true⟩)
        ((Query.combine .difference (.named "B") (.named "A")).evaluate store' ⟨true⟩) ∧
      (Query.combine .difference (.named "B") (.named "A")).evaluate store ⟨true⟩ = .ok b ∧
      (Query.combine .difference (.named "B") (.named "A")).evaluate store' ⟨true⟩ =
        .ok ⟨[⟨"x", .numeric⟩], []⟩ := by
  have hstays : ∀ b, SameRows b b := fun b =>
    ⟨rfl, Relation.within_of_subset (List.Subset.refl _),
      Relation.within_of_subset (List.Subset.refl _)⟩
  have hsame : ∀ a a' b, (Query.named "B").SameSources ((Store.empty.bind "A" a).bind "B" b)
      ((Store.empty.bind "A" a').bind "B" b) := by
    intro a a' b name hname
    obtain rfl := List.mem_singleton.mp hname
    rw [Store.find?_bind, if_pos rfl, Store.find?_bind, if_pos rfl]
    exact .some (hstays b)
  have hhalf : (⟨false, 15, 1, by decide, by decide⟩ : Decimal).value =
      (⟨false, 150, 2, by decide, by decide⟩ : Decimal).value := by
    norm_num [Decimal.value, Decimal.signedMantissa]
  have hgrows : Relation.Grows
      ⟨[⟨"x", .numeric⟩], [[.number ⟨false, 15, 1, by decide, by decide⟩]]⟩
      ⟨[⟨"x", .numeric⟩], [[.number .zero],
        [.number ⟨false, 150, 2, by decide, by decide⟩]]⟩ := by
    refine ⟨rfl, fun row hrow => ?_⟩
    obtain rfl := List.mem_singleton.mp hrow
    exact ⟨_, List.mem_cons_of_mem _ List.mem_cons_self, .cons (.number hhalf) .nil⟩
  have hstores := (Store.Related.empty.bind "A" hgrows).bind "B"
    (hstays ⟨[⟨"x", .numeric⟩], [[.number .zero]]⟩).grows
  obtain ⟨hpositive, hleft, hright⟩ := evaluate_monotone hstores ⟨true⟩ ⟨true⟩
  exact ⟨_, _, _, _, _, _, rfl, rfl, rfl, rfl, rfl, hstores, rfl, by decide,
    hpositive _ (by decide), rfl, hsame _ _ _, hleft _ _ (by decide) (hsame _ _ _),
    hright _ _ (by decide) (hsame _ _ _), rfl, rfl⟩

end RelationScript
