/-
# Labels of products

Under which labels do all products exist?  Different labels do not suffice: where one continues the
other with a dot, a qualified name of the left can be one of the right.  No round tells such columns
apart, since each of them has been qualified.

* `Relation.exists_selfProduct_eq_error` : in the product of a relation with itself all columns are
  qualified;
* `Relation.forall_exists_product_iff` : the labels under which all products exist.
-/
import RelationScript.Proofs.Relation.Naming

namespace RelationScript

open Slot (Continues LabelsApart)

namespace Relation

/-- In the product of a relation with itself all columns are qualified, so it does not exist if two
qualified names are alike. -/
theorem exists_selfProduct_eq_error {a : Relation} (ha : a.WellFormed)
    (labels : String × String) {x y : Column} (hx : x ∈ a.heading) (hy : y ∈ a.heading)
    (h : labels.1 ++ "." ++ x.name = labels.2 ++ "." ++ y.name) :
    ∃ fault, a.product a labels.1 labels.2 = .error fault := by
  obtain ⟨_, -, marks, -, -, -, hheading, hleast⟩ :=
    Slot.exists_isLeast_chosen labels ha.nodup ha.nodup
  have htaken : NamesTaken labels a.heading a.heading _ := hleast.1
  have hleft : Slot.chosen _ marks (.ofLeft x) = true := (htaken.shared x hx x hx rfl).1
  have hright : Slot.chosen _ marks (.ofRight y) = true := (htaken.shared y hy y hy rfl).2
  rw [exists_product_eq_error_iff (Sided.nodup_all ha.nodup ha.nodup) hheading]
  refine ⟨_, Sided.mem_all_ofLeft.mpr hx, _, Sided.mem_all_ofRight.mpr hy, Sided.noConfusion, ?_⟩
  rw [Sided.toColumn, Sided.toColumn, if_pos hleft, if_pos hright]
  exact h.symm

/-- A relation without rows, with a column `x` and the column that is called so behind a label. -/
def nested (label : String) : Relation :=
  ⟨[⟨"x", .numeric⟩, ⟨label ++ "." ++ "x", .numeric⟩], []⟩

theorem wellFormed_nested (label : String) : (nested label).WellFormed := by
  refine ⟨?_, by simp [nested]⟩
  have hne : "x" ≠ label ++ "." ++ "x" := by
    intro h
    have hlength := congrArg String.length h
    simp at hlength
  simpa [nested, Heading.names] using hne

/-- Where one label continues the other, there are columns whose qualified names are alike. -/
theorem exists_product_nested_eq_error {left right more : String}
    (h : right = left ++ "." ++ more) :
    (∃ fault, (nested more).product (nested more) left right = .error fault) ∧
      ∃ fault, (nested more).product (nested more) right left = .error fault := by
  have hsame : left ++ "." ++ (more ++ "." ++ "x") = right ++ "." ++ "x" := by
    rw [h]
    simp only [String.append_assoc]
  have hinner : ⟨"x", .numeric⟩ ∈ (nested more).heading := List.mem_cons_self
  have houter : ⟨more ++ "." ++ "x", .numeric⟩ ∈ (nested more).heading :=
    List.mem_cons_of_mem _ List.mem_cons_self
  constructor
  · exact exists_selfProduct_eq_error (wellFormed_nested more) (left, right) houter hinner hsame
  · exact exists_selfProduct_eq_error (wellFormed_nested more) (right, left) hinner houter
      hsame.symm

/-- **Labels under which all products exist.**  Whatever the operands are, a product succeeds with
distinct names under labels that differ and do not continue each other; under any others there are
operands with no product.  The one fault there can be is a name that two columns share. -/
theorem forall_exists_product_iff (left right : String) :
    ((∀ a b : Relation, a.WellFormed → b.WellFormed →
        ∃ c, a.product b left right = .ok c ∧ c.heading.names.Nodup) ↔ LabelsApart left right) ∧
      ∀ (a b : Relation) (fault : AlgebraFault), a.WellFormed → b.WellFormed →
        a.product b left right = .error fault →
          ¬ LabelsApart left right ∧ ∃ name, fault = .repeatedColumn name := by
  have hexists : LabelsApart left right → ∀ a b : Relation, a.WellFormed → b.WellFormed →
      ∃ c, a.product b left right = .ok c ∧ c.heading.names.Nodup := by
    intro hlabels a b ha hb
    obtain ⟨c, hc⟩ := exists_product_of_labelsApart ha hb hlabels
    obtain ⟨hnodup, rfl⟩ := product_eq_ok.mp hc
    exact ⟨_, hc, hnodup⟩
  refine ⟨⟨fun h => ?_, hexists⟩, ?_⟩
  · have hnever : ∀ a : Relation, a.WellFormed →
        ¬ ∃ fault, a.product a left right = .error fault := by
      rintro a ha ⟨fault, hfault⟩
      obtain ⟨c, hc, -⟩ := h a a ha ha
      rw [hc] at hfault
      cases hfault
    refine ⟨?_, ?_, ?_⟩
    · rintro rfl
      -- Under one label for both sides, a column meets itself.
      exact hnever _ (wellFormed_nested left) (exists_selfProduct_eq_error (wellFormed_nested left)
        (left, left) List.mem_cons_self List.mem_cons_self rfl)
    · rintro ⟨more, hright⟩
      exact hnever _ (wellFormed_nested more) (exists_product_nested_eq_error hright).1
    · rintro ⟨more, hleft⟩
      exact hnever _ (wellFormed_nested more) (exists_product_nested_eq_error hleft).2
  · intro a b fault ha hb hfault
    obtain ⟨name, -, rfl⟩ := product_eq_error.mp hfault
    refine ⟨fun hlabels => ?_, name, rfl⟩
    obtain ⟨c, hc, -⟩ := hexists hlabels a b ha hb
    rw [hc] at hfault
    cases hfault

/-- Labels may have dots and share what stands before them. -/
theorem forall_exists_product_of_dotted :
    ∀ a b : Relation, a.WellFormed → b.WellFormed →
      ∃ c, a.product b "db.A" "db.B" = .ok c ∧ c.heading.names.Nodup :=
  (forall_exists_product_iff "db.A" "db.B").1.mpr (by decide)

/-- Under the labels `A` and `A.A` the `x` of the left, which gives way to an `A.x`, meets the `x` of
the right. -/
theorem not_forall_exists_product_of_ne :
    ¬ ∀ (a b : Relation) (left right : String), a.WellFormed → b.WellFormed → left ≠ right →
      ∃ c, a.product b left right = .ok c ∧ c.heading.names.Nodup := by
  intro h
  obtain ⟨c, hc, -⟩ := h ⟨[⟨"x", .numeric⟩, ⟨"A.x", .numeric⟩], []⟩ ⟨[⟨"x", .numeric⟩], []⟩ "A" "A.A"
    ⟨by decide, by decide⟩ ⟨by decide, by decide⟩ (by decide)
  have hfault : product ⟨[⟨"x", .numeric⟩, ⟨"A.x", .numeric⟩], []⟩ ⟨[⟨"x", .numeric⟩], []⟩ "A" "A.A" =
      .error (.repeatedColumn "A.A.x") := by
    decide
  rw [hfault] at hc
  cases hc

end Relation

end RelationScript
