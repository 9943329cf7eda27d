/-
# Faults of scripts

Faults of the algebra reach a script in words of its own: a query names the operator, the
brackets or the literal at fault.  One arm of each translation is left for faults that the
operator at hand cannot have.

* `Query.evaluate_ne_algebra` : no query over well-formed relations comes to the last arm;
* `Script.run_ne_internal_fault` : neither does a script.
-/
import RelationScript.Proofs.Relation.Faults
import RelationScript.Proofs.Relation.Qualification
import RelationScript.Proofs.Script.WellFormed

namespace RelationScript

/-! ## Faults of queries -/

/-- A query over well-formed relations fails for a reason of its own, never by a fault that the
algebra leaves unexplained. -/
theorem Query.evaluate_ne_algebra {options : Options} {store : Store} (hstore : store.WellFormed)
    {query : Query} (hnames : ∀ name ∈ query.sources, Text.isName name = true)
    (fault : AlgebraFault) : query.evaluate store options ≠ .error (.algebra fault) := by
  induction query with
  | named name =>
    rw [evaluate]
    split <;> simp
  | combine operator left right ihleft ihright =>
    simp only [sources, List.forall_mem_append] at hnames
    refine bind_ne_error (ihleft hnames.1) fun a _ => bind_ne_error (ihright hnames.2) fun b _ h => ?_
    obtain ⟨cause, hcombine, hfault⟩ := mapError_eq_error.mp h
    obtain ⟨-, rfl⟩ := Relation.combine_eq_error.mp hcombine
    simp [EvalFault.ofCombine] at hfault
  | product left right ihleft ihright =>
    simp only [sources, List.forall_mem_append] at hnames
    refine bind_ne_error (ihleft hnames.1) fun a ha =>
      bind_ne_error (ihright hnames.2) fun b hb h => ?_
    -- The product exists, so it has no fault to pass on.
    obtain ⟨hleftLabel, hrightLabel⟩ := dot_not_mem_labels hnames.1 hnames.2
    obtain ⟨c, hc⟩ := Relation.exists_product (hstore.evaluate ha) (hstore.evaluate hb)
      (labels_ne left right) hleftLabel hrightLabel
    obtain ⟨cause, hproduct, -⟩ := mapError_eq_error.mp h
    simp [hc] at hproduct
  | project base columns text ih =>
    refine bind_ne_error (ih hnames) fun a _ h => ?_
    obtain ⟨cause, hproject, hfault⟩ := mapError_eq_error.mp h
    obtain ⟨name, rfl | rfl⟩ := Relation.exists_of_project_eq_error hproject <;>
      simp [EvalFault.ofProject] at hfault
  | select base condition text ih =>
    refine bind_ne_error (ih hnames) fun a _ h => ?_
    obtain ⟨cause, hselect, hfault⟩ := mapError_eq_error.mp h
    rcases Relation.exists_of_select_eq_error hselect with ⟨name, rfl⟩ | ⟨mismatch, rfl⟩ <;>
      simp [EvalFault.ofSelect] at hfault

namespace Script

theorem run_ne_algebra {options : Options} {store : Store} (hstore : store.WellFormed)
    (lines : List String) (fault : AlgebraFault) :
    run options store lines ≠ .error (.evaluation (.algebra fault)) := by
  intro h
  obtain ⟨reached, hreached, line, -, hexecute⟩ := exists_execute_of_run_error h
  obtain ⟨-, hcauses⟩ := execute_eq_error.mp hexecute
  rcases hcauses with ⟨cause, -, hfault⟩ | ⟨statement, cause, hline, hvalue, hfault⟩
  · simp at hfault
  · obtain rfl : EvalFault.algebra fault = cause := by simpa using hfault
    exact Query.evaluate_ne_algebra (hstore.stores lines reached hreached)
      (fun _ => isName_of_ofLine hline) fault hvalue

/-- **Scripts have no internal faults.**  From what a document describes no run ends in a fault
that the algebra leaves unexplained.  The labels of a product differ and have no dots, so every
product of relations that a session comes to exists; the other operators fail for reasons only
that a script is told about. -/
theorem run_ne_internal_fault {json : Json} {store : Store} (h : Store.ofJson json = .ok store)
    (options : Options) (lines : List String) :
    (∀ fault, run options store lines ≠ .error (.evaluation (.algebra fault))) ∧
    (∀ left right : Query, left.Parsed → right.Parsed →
      (Query.labels left right).1 ≠ (Query.labels left right).2 ∧
        '.' ∉ (Query.labels left right).1.toList ∧ '.' ∉ (Query.labels left right).2.toList) ∧
    (∀ reached ∈ stores options store lines, ∀ (left right : Query) (a b : Relation),
      left.Parsed → right.Parsed → left.evaluate reached options = .ok a →
        right.evaluate reached options = .ok b →
          ∃ c, a.product b (Query.labels left right).1 (Query.labels left right).2 = .ok c) ∧
    (∀ operator (a b : Relation) fault, a.combine operator b = .error fault →
      fault = .headingsDiffer operator) ∧
    (∀ names dedup (a : Relation) fault, a.project names dedup = .error fault →
      ∃ name, fault = .unknownColumn name ∨ fault = .repeatedColumn name) ∧
    (∀ name comparator comparand (a : Relation) fault,
      a.select name comparator comparand = .error fault →
        (∃ name, fault = .unknownColumn name) ∨ ∃ mismatch, fault = .illTyped mismatch) := by
  have hstore := Store.wellFormed_of_ofJson h
  have hlabels : ∀ left right : Query, left.Parsed → right.Parsed →
      '.' ∉ (Query.labels left right).1.toList ∧ '.' ∉ (Query.labels left right).2.toList :=
    fun left right hleft hright =>
      Query.dot_not_mem_labels (fun _ => hleft.isName) (fun _ => hright.isName)
  refine ⟨run_ne_algebra hstore lines, fun left right hleft hright =>
    ⟨Query.labels_ne left right, hlabels left right hleft hright⟩, ?_,
    fun _ _ _ _ hfault => (Relation.combine_eq_error.mp hfault).2,
    fun _ _ _ _ => Relation.exists_of_project_eq_error,
    fun _ _ _ _ _ => Relation.exists_of_select_eq_error⟩
  -- The stores of a session are well-formed, and that is all that a product asks for.
  intro reached hreached left right a b hleft hright ha hb
  have hreached := hstore.stores lines reached hreached
  obtain ⟨hleftLabel, hrightLabel⟩ := hlabels left right hleft hright
  exact Relation.exists_product (hreached.evaluate ha) (hreached.evaluate hb)
    (Query.labels_ne left right) hleftLabel hrightLabel

/-- A document with a relation called `_1`, and a product of an unnamed relation with it. -/
theorem run_ne_internal_fault_of_anonymous :
    ∃ store, Store.ofJson (.object [("_1", .object [("schema", .array [.object
        [("name", .string "x"), ("type", .string "numeric")]]),
        ("rows", .array [.array [.number "1.50"]])])]) = .ok store ∧
      ∀ fault, run ⟨false⟩ store ["(_1 | _1) * _1 -> _2", "_2 * _1 -> _1", "_1 * _1 -> _2"] ≠
        .error (.evaluation (.algebra fault)) := by
  have hload : ∃ store, Store.ofJson (.object [("_1", .object [("schema", .array [.object
      [("name", .string "x"), ("type", .string "numeric")]]),
      ("rows", .array [.array [.number "1.50"]])])]) = .ok store := ⟨_, by cbv⟩
  obtain ⟨store, h⟩ := hload
  exact ⟨store, h, (run_ne_internal_fault h _ _).1⟩

end Script

end RelationScript
