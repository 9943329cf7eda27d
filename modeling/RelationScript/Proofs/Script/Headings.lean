/-
# Headings decide how a script ends

Whether an operator fails, with what fault, and what heading its result has, can be read off
the headings of its operands.  So scripts cannot tell relations of the same heading apart by
their faults, whatever the rows are.

* `SameHeading` : two relations differ at most in their rows;
* `congruence_sameHeading` : every operator respects it;
* `agree_of_sameHeadings` : and so do queries and scripts.
-/
import RelationScript.Proofs.Script.Agreement

namespace RelationScript

/-- The relations differ at most in their rows. -/
def SameHeading (a b : Relation) : Prop :=
  a.heading = b.heading

/-! ## Operators -/

/-- Set operators compare headings only, products qualify columns without a look at the rows, and
projections and selections locate and type their columns before any row is touched. -/
theorem congruence_sameHeading (options options' : Options) :
    Congruence options options' (fun _ => True) SameHeading := by
  have hiff : ∀ a b, SameHeading a b ↔ a.heading = b.heading ∧ True := by
    intro a b
    rw [SameHeading, and_true]
  -- Any rows will do.
  refine Congruence.of_rows (fun _ _ => True) hiff ?_ ?_ ?_ ?_ <;> intros <;> trivial

/-! ## Queries and scripts -/

/-- **Headings decide how a script ends.**  From two stores that bind the same names, to
relations of the same headings, a script fails with the same fault at the same line, or leads
to two such stores again.  A query fails with the same fault or has values of the same
heading. -/
theorem agree_of_sameHeadings {store store' : Store} (h : store.Related SameHeading store')
    (options : Options) :
    (∀ lines, Agree (Store.Related SameHeading) (Script.run options store lines)
      (Script.run options store' lines)) ∧
    (∀ lines, Script.firstFault? options store lines = Script.firstFault? options store' lines) ∧
    ∀ query : Query, Agree SameHeading (query.evaluate store options)
      (query.evaluate store' options) :=
  ⟨(congruence_sameHeading options options).run h,
    (congruence_sameHeading options options).firstFault? h,
    fun _ => (congruence_sameHeading options options).evaluate h fun _ _ => trivial⟩

/-- A relation without rows beside one with a row: the literal is no date in either. -/
theorem agree_of_emptyRelation :
    (Store.empty.bind "A" ⟨[⟨"day", .date⟩], []⟩).Related SameHeading
        (Store.empty.bind "A" ⟨[⟨"day", .date⟩], [[.date ⟨2020, 1, 1, by decide⟩]]⟩) ∧
      Script.firstFault? ⟨true⟩
          (Store.empty.bind "A" ⟨[⟨"day", .date⟩], [[.date ⟨2020, 1, 1, by decide⟩]]⟩)
          ["A[day = 'today'] -> B"] =
        some (0, .evaluation (.illTyped "day = 'today'" (.noSuchDate (.text "today")))) := by
  have hstores : (Store.empty.bind "A" ⟨[⟨"day", .date⟩], []⟩).Related SameHeading
      (Store.empty.bind "A" ⟨[⟨"day", .date⟩], [[.date ⟨2020, 1, 1, by decide⟩]]⟩) :=
    Store.Related.empty.bind "A" rfl
  have hfault : Script.execute ⟨true⟩ (Store.empty.bind "A" ⟨[⟨"day", .date⟩], []⟩)
      "A[day = 'today'] -> B" =
      .error (.evaluation (.illTyped "day = 'today'" (.noSuchDate (.text "today")))) :=
    Script.execute_eq_error.mpr ⟨by cbv, Or.inr
      ⟨⟨.select (.named "A") ⟨⟨none, "day"⟩, .equal, .literal (.text "today")⟩
        "day = 'today'", "B"⟩, _, by cbv, by cbv, rfl⟩⟩
  refine ⟨hstores, ?_⟩
  rw [← (agree_of_sameHeadings hstores ⟨true⟩).2.1]
  exact Script.firstFault?_cons_of_error hfault

end RelationScript
