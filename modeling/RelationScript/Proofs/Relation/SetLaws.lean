/-
# Laws of the set operators

Union and intersection drop repeats, difference keeps them, and all three keep the order of the left
operand.  The laws of sets that hold under these conditions hold for the lists of rows as they
stand: expressions may be rearranged by them without a change in the order of the rows, in how
often a row occurs, or in which of several equal rows is kept.

* `combineRows_union_assoc`, … : the laws for lists of rows;
* `SetLaws`, `setLaws_of_heading_eq` : the laws for relations of one heading.
-/
import RelationScript.Proofs.Relation.Distinct

namespace RelationScript.Relation

/-! ## Rows -/

section

variable (a b c : List Row)

theorem combineRows_union_assoc :
    combineRows .union (combineRows .union a b) c =
      combineRows .union a (combineRows .union b c) := by
  simp only [combineRows]
  rw [distinct_distinct_append, distinct_append_distinct, List.append_assoc]

/-- Intersection is associative on rows, in order and scale. -/
theorem combineRows_intersection_assoc :
    combineRows .intersection (combineRows .intersection a b) c =
      combineRows .intersection a (combineRows .intersection b c) := by
  have hoccurs : Row.occursIn (combineRows .intersection b c) =
      fun row => Row.occursIn c row && Row.occursIn b row := by
    funext row
    rw [combineRows, occursIn_distinct, occursIn_filter (respects_occursIn c)]
  simp only [combineRows] at hoccurs ⊢
  rw [hoccurs, ← distinct_filter (respects_occursIn c), distinct_distinct, List.filter_filter]

/-- Rows are looked up in each operand of a union. -/
theorem combineRows_intersection_union :
    combineRows .intersection (combineRows .union a b) c =
      combineRows .union (combineRows .intersection a c) (combineRows .intersection b c) := by
  have hfilter := filter_combineRows (respects_occursIn c) .union a b
  simp only [combineRows] at hfilter ⊢
  rw [hfilter, distinct_distinct, distinct_distinct_append, distinct_append_distinct]

/-- Rows are taken away from each operand of a union. -/
theorem combineRows_difference_union :
    combineRows .difference (combineRows .union a b) c =
      combineRows .union (combineRows .difference a c) (combineRows .difference b c) :=
  filter_combineRows (respects_not (respects_occursIn c)) .union a b

/-- What is taken away in two steps is taken away at once. -/
theorem combineRows_difference_difference :
    combineRows .difference (combineRows .difference a b) c =
      combineRows .difference a (combineRows .union b c) := by
  simp only [combineRows]
  rw [List.filter_filter, occursIn_distinct]
  apply List.filter_congr
  intro row _
  rw [occursIn_append, Bool.not_or, Bool.and_comm]

theorem combineRows_difference_comm :
    combineRows .difference (combineRows .difference a b) c =
      combineRows .difference (combineRows .difference a c) b := by
  simp only [combineRows]
  rw [List.filter_comm]

/-- A union with itself drops the repeats. -/
theorem combineRows_union_self : combineRows .union a a = distinct a := by
  rw [combineRows, distinct_append, List.append_right_eq_self, List.filter_eq_nil_iff]
  intro row hrow
  -- Every row of the second copy has occurred in the first one.
  have hoccurs : Row.occursIn a row = true :=
    Row.occursIn_iff.mpr ⟨row, mem_of_mem_distinct hrow, Row.equal_equivalence.refl row⟩
  simp [hoccurs]

/-- A union has the rows of its left operand, and then those that only the right one has. -/
theorem combineRows_union_eq_append :
    combineRows .union a b = combineRows .union a a ++
      combineRows .union (combineRows .difference b a) (combineRows .difference b a) := by
  rw [combineRows_union_self, combineRows_union_self]
  simp only [combineRows]
  rw [distinct_append, distinct_filter (respects_not (respects_occursIn a))]

/-- The rows of `a` that are left when those that are not in `b` are taken away. -/
theorem combineRows_difference_difference_self :
    combineRows .difference a (combineRows .difference a b) = a.filter (Row.occursIn b) := by
  apply List.filter_congr
  intro row hrow
  have hoccurs : Row.occursIn a row = true :=
    Row.occursIn_iff.mpr ⟨row, hrow, Row.equal_equivalence.refl row⟩
  rw [combineRows, occursIn_filter (respects_not (respects_occursIn b)), hoccurs, Bool.and_true,
    Bool.not_not]

end

/-! ## Relations -/

/-- The laws that set operators obey, as equalities of relations with all their rows in order. -/
structure SetLaws (a b c : Relation) : Prop where
  /-- (A | B) | C = A | (B | C). -/
  union_assoc : Coincide
    (do (← a.combine .union b).combine .union c)
    (do a.combine .union (← b.combine .union c))
  /-- (A & B) & C = A & (B & C). -/
  intersection_assoc : Coincide
    (do (← a.combine .intersection b).combine .intersection c)
    (do a.combine .intersection (← b.combine .intersection c))
  /-- (A | B) & C = (A & C) | (B & C). -/
  intersection_union : Coincide
    (do (← a.combine .union b).combine .intersection c)
    (do (← a.combine .intersection c).combine .union (← b.combine .intersection c))
  /-- (A | B) \ C = (A \ C) | (B \ C). -/
  difference_union : Coincide
    (do (← a.combine .union b).combine .difference c)
    (do (← a.combine .difference c).combine .union (← b.combine .difference c))
  /-- (A \ B) \ C = A \ (B | C). -/
  difference_difference : Coincide
    (do (← a.combine .difference b).combine .difference c)
    (do a.combine .difference (← b.combine .union c))
  /-- (A \ B) \ C = (A \ C) \ B. -/
  difference_comm : Coincide
    (do (← a.combine .difference b).combine .difference c)
    (do (← a.combine .difference c).combine .difference b)
  /-- A | B has the rows of A | A, and then those of (B \ A) | (B \ A). -/
  union_append : ∃ own new,
    a.combine .union a = .ok own ∧
    (do (← b.combine .difference a).combine .union (← b.combine .difference a)) = .ok new ∧
    a.combine .union b = .ok ⟨a.heading, own.rows ++ new.rows⟩
  /-- A & B = D | D for D = A \ (A \ B). -/
  intersection_eq : Coincide
    (a.combine .intersection b)
    (do
      let common ← a.combine .difference (← a.combine .difference b)
      common.combine .union common)

/-- **Laws of the set operators.**  For relations of one heading all expressions in the laws have
values, and the two sides of each law have the same rows, in the same order and equally often, with
their numbers in the same scales. -/
theorem setLaws_of_heading_eq {a b c : Relation} (hb : a.heading = b.heading)
    (hc : b.heading = c.heading) : SetLaws a b c := by
  obtain ⟨heading, a⟩ := a
  obtain ⟨heading', b⟩ := b
  obtain ⟨heading'', c⟩ := c
  obtain rfl : heading = heading' := hb
  obtain rfl : heading = heading'' := hc
  constructor <;> simp only [combine_mk, ok_bind]
  case union_assoc => exact .of_eq (congrArg _ (combineRows_union_assoc a b c))
  case intersection_assoc => exact .of_eq (congrArg _ (combineRows_intersection_assoc a b c))
  case intersection_union => exact .of_eq (congrArg _ (combineRows_intersection_union a b c))
  case difference_union => exact .of_eq (congrArg _ (combineRows_difference_union a b c))
  case difference_difference => exact .of_eq (congrArg _ (combineRows_difference_difference a b c))
  case difference_comm => exact .of_eq (congrArg _ (combineRows_difference_comm a b c))
  case union_append =>
    refine ⟨_, _, rfl, rfl, ?_⟩
    rw [← combineRows_union_eq_append]
  case intersection_eq =>
    apply Coincide.of_eq
    rw [combineRows_union_self, combineRows_difference_difference_self, combineRows]

/-- Three relations of which each has repeated rows: the first one has a number in two scales. -/
theorem setLaws_of_repeatedRows :
    let heading : Heading := [⟨"x", .numeric⟩]
    let half : Cell := .number ⟨false, 5, 1, by decide, by decide⟩
    let halfAgain : Cell := .number ⟨false, 50, 2, by decide, by decide⟩
    let a : Relation := ⟨heading, [[half], [.number .zero], [halfAgain]]⟩
    let b : Relation := ⟨heading, [[.number .zero], [.number .zero]]⟩
    let c : Relation := ⟨heading, [[halfAgain], [halfAgain]]⟩
    a.heading = b.heading ∧ b.heading = c.heading ∧
      a.combine .difference b = .ok ⟨heading, [[half], [halfAgain]]⟩ ∧
      a.combine .intersection c = .ok ⟨heading, [[half]]⟩ ∧ SetLaws a b c := by
  intro heading half halfAgain a b c
  exact ⟨rfl, rfl, by decide, by decide, setLaws_of_heading_eq rfl rfl⟩

end RelationScript.Relation
