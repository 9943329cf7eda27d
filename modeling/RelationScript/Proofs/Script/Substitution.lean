/-
# Naming intermediate results

A script may bind the value of a query to a name and go on with the name, or write the query
wherever the name would stand.  Both come to the same, faults included, as long as no product has
a side that is called by the name: the name would be its label, and the query has another one.

* `Query.substitute` : a query in place of a name;
* `Query.labels_substitute` : the labels of products that are not called by the name;
* `Query.evaluate_substitute` : the value of a query with a name bound, and with the name replaced.
-/
import RelationScript.Proofs.Script.Runs

namespace RelationScript.Query

/-- The query with another one in place of each mention of a name. -/
def substitute : Query → String → Query → Query
  | named other, name, inserted => if other = name then inserted else named other
  | combine operator left right, name, inserted =>
    combine operator (left.substitute name inserted) (right.substitute name inserted)
  | product left right, name, inserted =>
    product (left.substitute name inserted) (right.substitute name inserted)
  | project base columns text, name, inserted =>
    project (base.substitute name inserted) columns text
  | select base condition text, name, inserted =>
    select (base.substitute name inserted) condition text

/-- No side of a product in the query is called by the name. -/
def LabelsNoSide (name : String) (query : Query) : Prop :=
  ∀ left right, product left right ∈ query.subqueries →
    left.displayName? ≠ some name ∧ right.displayName? ≠ some name

variable {name : String} {inserted : Query}

theorem LabelsNoSide.mono {part whole : Query} (h : LabelsNoSide name whole)
    (hpart : part.subqueries ⊆ whole.subqueries) : LabelsNoSide name part :=
  fun left right hmem => h left right (hpart hmem)

/-! ## Labels -/

/-- A query that is not called by the name is called as before. -/
theorem displayName?_substitute {query : Query} (h : query.displayName? ≠ some name) :
    (query.substitute name inserted).displayName? = query.displayName? := by
  induction query with
  | named other =>
    have hother : other ≠ name := by
      intro heq
      apply h
      rw [displayName?, heq]
    rw [substitute, if_neg hother]
  | combine operator left right => rfl
  | product left right => rfl
  | project base columns text ih => exact ih h
  | select base condition text ih => exact ih h

theorem labels_substitute {left right : Query} (hleft : left.displayName? ≠ some name)
    (hright : right.displayName? ≠ some name) :
    labels (left.substitute name inserted) (right.substitute name inserted) =
      labels left right := by
  rw [labels, labels, displayName?_substitute hleft, displayName?_substitute hright]

/-- A side that is called by the name loses this label when the name is replaced. -/
example : labels (named "X") (named "A") = ("X", "A") ∧
    labels ((named "X").substitute "X" (combine .union (named "A") (named "B"))) (named "A") =
      ("_1", "A") := by decide

/-! ## Values -/

/-- **Naming an intermediate result does not change its meaning.**  With the value of a query bound
to a name, other queries have the values or faults that they have with the query written in place
of the name, if no side of a product in them is called by the name. -/
theorem evaluate_substitute {store : Store} {options : Options} {relation : Relation}
    (hvalue : inserted.evaluate store options = .ok relation) {query : Query}
    (hlabels : LabelsNoSide name query) :
    query.evaluate (store.bind name relation) options =
      (query.substitute name inserted).evaluate store options := by
  induction query with
  | named other =>
    rw [substitute, evaluate, Store.find?_bind]
    by_cases hother : other = name
    · rw [if_pos hother.symm, if_pos hother, hvalue]
    · rw [if_neg (Ne.symm hother), if_neg hother]
      rfl
  | combine operator left right ihleft ihright =>
    have hleft : LabelsNoSide name left := hlabels.mono (by simp [subqueries])
    have hright : LabelsNoSide name right := hlabels.mono (by simp [subqueries])
    rw [substitute, evaluate, evaluate, ihleft hleft, ihright hright]
  | product left right ihleft ihright =>
    have hleft : LabelsNoSide name left := hlabels.mono (by simp [subqueries])
    have hright : LabelsNoSide name right := hlabels.mono (by simp [subqueries])
    obtain ⟨hleftSide, hrightSide⟩ := hlabels left right (mem_subqueries_self _)
    -- The sides are called as before, and so the columns are qualified as before.
    rw [substitute, evaluate, evaluate, labels_substitute hleftSide hrightSide, ihleft hleft,
      ihright hright]
  | project base columns text ih =>
    have hbase : LabelsNoSide name base := hlabels.mono (by simp [subqueries])
    rw [substitute, evaluate, evaluate, ih hbase]
  | select base condition text ih =>
    have hbase : LabelsNoSide name base := hlabels.mono (by simp [subqueries])
    rw [substitute, evaluate, evaluate, ih hbase]

/-- A product is bound to a name that is read twice, once inside a side of another product. -/
theorem evaluate_substitute_of_product :
    let store := (Store.empty.bind "A" ⟨[⟨"x", .string⟩], [[.text "a"]]⟩).bind "B"
      ⟨[⟨"x", .string⟩], [[.text "a"], [.text "b"]]⟩
    let inserted := product (named "A") (named "B")
    let query := product (combine .union (named "X") (named "X")) (named "A")
    inserted.evaluate store ⟨true⟩ = .ok ⟨[⟨"A.x", .string⟩, ⟨"B.x", .string⟩],
        [[.text "a", .text "a"], [.text "a", .text "b"]]⟩ ∧
      LabelsNoSide "X" query ∧
      query.evaluate (store.bind "X" ⟨[⟨"A.x", .string⟩, ⟨"B.x", .string⟩],
        [[.text "a", .text "a"], [.text "a", .text "b"]]⟩) ⟨true⟩ =
          (query.substitute "X" inserted).evaluate store ⟨true⟩ := by
  have hvalue : (product (named "A") (named "B")).evaluate
      ((Store.empty.bind "A" ⟨[⟨"x", .string⟩], [[.text "a"]]⟩).bind "B"
        ⟨[⟨"x", .string⟩], [[.text "a"], [.text "b"]]⟩) ⟨true⟩ =
      .ok ⟨[⟨"A.x", .string⟩, ⟨"B.x", .string⟩],
        [[.text "a", .text "a"], [.text "a", .text "b"]]⟩ := by cbv
  have hlabels : LabelsNoSide "X"
      (product (combine .union (named "X") (named "X")) (named "A")) := by
    intro left right h
    simp only [subqueries, List.mem_append, List.mem_cons, List.not_mem_nil, or_false,
      product.injEq, reduceCtorEq] at h
    obtain ⟨rfl, rfl⟩ := h
    decide
  exact ⟨hvalue, hlabels, evaluate_substitute hvalue hlabels⟩

end RelationScript.Query
