/-
# Checks

A check reads the lines of a script, and evaluates nothing.  A run reads each line when it comes
to it, so it sees less of the script: what is wrong with the value of a line hides all that is
wrong behind it.

* `Script.offends` : lines that should be statements and are not;
* `Script.run_eq_line_fault` : a run and a check that fail at the same line;
* `Script.exists_check_of_run` : what a check finds where a run succeeds;
* `run_eq_line_fault_iff_check` : runs and checks.
-/
import RelationScript.Proofs.Script.Sessions

namespace RelationScript

/-! ## Names of stores -/

namespace Store

theorem mem_names {store : Store} {name : String} : name ∈ store.names ↔ name ∈ store :=
  Std.ExtTreeMap.mem_keys

theorem mem_names_bind {store : Store} {target name : String} {relation : Relation} :
    name ∈ (store.bind target relation).names ↔ name = target ∨ name ∈ store.names := by
  rw [mem_names, mem_names, bind, Std.ExtTreeMap.mem_insert, compare_eq_iff_eq, eq_comm]

end Store

namespace Script

variable {options : Options} {store after : Store} {line : String} {lines : List String}

/-! ## Lines that are no statements -/

/-- Whether a line should be a statement and is none. -/
def offends (line : String) : Bool :=
  !isSkipped line && !(statement line).isOk

/-- The index of the first line that should be a statement and is none. -/
def offending? (lines : List String) : Option Nat :=
  lines.findIdx? offends

section

variable {bound : Option String} {shown : String} {cause : LineFault} {fault : ScriptFault}

/-- A line is in order if it is skipped or if it holds a statement. -/
theorem offends_eq_false :
    offends line = false ↔ isSkipped line = true ∨ ∃ first, statement line = .ok first := by
  unfold offends
  cases isSkipped line with
  | true => simp
  | false => cases statement line <;> simp [Except.isOk, Except.toBool]

/-- A line that is executed is in order. -/
theorem offends_of_execute_ok (h : execute options store line = .ok (bound, after)) :
    offends line = false := by
  rw [offends_eq_false]
  rcases execute_eq_ok.mp h with ⟨hskipped, -, -⟩ | ⟨-, first, _, hline, -⟩
  · exact Or.inl hskipped
  · exact Or.inr ⟨first, statement_eq_ok.mpr hline⟩

/-- A line whose evaluation fails is in order as a line. -/
theorem offends_of_execute_evaluation {cause : EvalFault}
    (h : execute options store line = .error (.evaluation cause)) : offends line = false := by
  obtain ⟨-, ⟨_, -, hfault⟩ | ⟨first, _, hline, -⟩⟩ := execute_eq_error.mp h
  · cases hfault
  · exact offends_eq_false.mpr (Or.inr ⟨first, statement_eq_ok.mpr hline⟩)

/-- A line that cannot be read fails alike in all stores. -/
theorem statement_of_execute_line_fault
    (h : execute options store line = .error (.line shown cause)) :
    isSkipped line = false ∧ statement line = .error (.line shown cause) := by
  obtain ⟨hskipped, ⟨_, hline, hfault⟩ | ⟨_, _, -, -, hfault⟩⟩ := execute_eq_error.mp h
  · refine ⟨hskipped, ?_⟩
    rw [statement, hline, hfault]
    rfl
  · cases hfault

/-! ## Checks, line by line -/

theorem check_cons_of_skipped (h : isSkipped line = true) :
    check (line :: lines) = check lines := by
  simp [check, h]

/-- A check reads a line that is not skipped, and then the lines behind it. -/
theorem check_cons (h : isSkipped line = false) :
    check (line :: lines) = do
      let first ← statement line
      let more ← check lines
      return first :: more := by
  simp [check, h]

/-- A line that holds a statement puts it before the statements of the lines behind it. -/
theorem check_cons_of_ok {first : Statement} {more : List Statement} (h : isSkipped line = false)
    (hline : Statement.ofLine line = .ok first) (hmore : check lines = .ok more) :
    check (line :: lines) = .ok (first :: more) := by
  rw [check_cons h, statement_eq_ok.mpr hline, hmore]
  rfl

/-- A check ends with the fault of the first line that offends. -/
theorem check_cons_of_error (h : isSkipped line = false) (hline : statement line = .error fault) :
    check (line :: lines) = .error fault := by
  rw [check_cons h, hline]
  rfl

/-- Behind a line that does not offend a check goes on. -/
theorem check_cons_eq_error (h : offends line = false) :
    check (line :: lines) = .error fault ↔ check lines = .error fault := by
  cases hskipped : isSkipped line with
  | true => rw [check_cons_of_skipped hskipped]
  | false =>
    obtain ⟨first, hline⟩ := (offends_eq_false.mp h).resolve_left (by simp [hskipped])
    rw [check_cons hskipped, hline]
    cases check lines with
    | error other => rfl
    | ok more => simp [bind, Except.bind, pure, Except.pure]

/-- Behind a line in order, the offending line is one further down. -/
theorem offending?_cons_of_not_offends (h : offends line = false) :
    offending? (line :: lines) = (offending? lines).map (· + 1) := by
  rw [offending?, List.findIdx?_cons, h]
  rfl

/-- If the first line offends, it is the offending line. -/
theorem offending?_cons_of_offends (h : offends line = true) :
    offending? (line :: lines) = some 0 := by
  rw [offending?, List.findIdx?_cons, h]
  rfl

/-! ## Faults of lines -/

/-- A run fails at a line that cannot be read when the check does so, and the lines before it
succeed. -/
theorem run_eq_line_fault :
    run options store lines = .error (.line shown cause) ↔
      check lines = .error (.line shown cause) ∧ ∃ index reached,
        offending? lines = some index ∧ run options store (lines.take index) = .ok reached := by
  induction lines generalizing store with
  | nil => simp [run, check, pure, Except.pure]
  | cons line lines ih =>
    cases hexecute : execute options store line with
    | ok outcome =>
      obtain ⟨bound, after⟩ := outcome
      have hoffends := offends_of_execute_ok hexecute
      rw [run_cons_of_ok hexecute, ih, check_cons_eq_error hoffends,
        offending?_cons_of_not_offends hoffends]
      simp [run_cons_of_ok hexecute]
    | error fault =>
      rw [run_cons_of_error hexecute]
      cases fault with
      | evaluation cause =>
        have hoffends := offends_of_execute_evaluation hexecute
        rw [offending?_cons_of_not_offends hoffends]
        simp [run_cons_of_error hexecute]
      | line other reason =>
        obtain ⟨hskipped, hline⟩ := statement_of_execute_line_fault hexecute
        have hoffends : offends line = true := by
          rw [offends, hskipped, hline]
          rfl
        rw [check_cons_of_error hskipped hline, offending?_cons_of_offends hoffends]
        simp [run]

end

/-! ## Runs that succeed -/

/-- Whether a line was skipped, by its outcome. -/
def isIdle : Except ScriptFault (Option String) → Bool
  | .ok none => true
  | _ => false

/-- The lines of a session that are not skipped. -/
def performed (options : Options) (store : Store) (lines : List String) : List String :=
  selected (fun outcome => !isIdle outcome) options store lines

/-- Where a run succeeds, a check finds the statement of every line that is not skipped, and their
targets are the names that the run adds. -/
theorem exists_check_of_run {final : Store} (h : run options store lines = .ok final) :
    ∃ statements, check lines = .ok statements ∧
      List.Forall₂ (fun line statement => Statement.ofLine line = .ok statement)
        (performed options store lines) statements ∧
      ∀ name, name ∈ final.names ↔
        name ∈ store.names ∨ name ∈ statements.map Statement.target := by
  induction lines generalizing store with
  | nil =>
    obtain rfl := Except.ok.inj h
    exact ⟨[], rfl, .nil, by simp⟩
  | cons line lines ih =>
    obtain ⟨⟨bound, after⟩, hexecute, h⟩ := bind_eq_ok.mp h
    obtain ⟨statements, hcheck, hperformed, hnames⟩ := ih h
    unfold performed at hperformed ⊢
    rw [selected_cons_of_ok _ hexecute]
    rcases execute_eq_ok.mp hexecute with
      ⟨hskipped, rfl, rfl⟩ | ⟨hskipped, statement, relation, hline, -, rfl, rfl⟩
    · exact ⟨statements, (check_cons_of_skipped hskipped).trans hcheck, hperformed, hnames⟩
    · refine ⟨statement :: statements, check_cons_of_ok hskipped hline hcheck,
        .cons hline hperformed, fun name => ?_⟩
      rw [hnames name, Store.mem_names_bind, List.map_cons, List.mem_cons, or_assoc,
        or_left_comm]

end Script

/-- **A check finds what a run finds.**  A run fails at a line that cannot be read just when the
check fails with the same fault, and all lines before that one succeed.  Where a run succeeds,
the check yields the statements of the lines that were not skipped, and their targets are the
names that are bound besides those bound before.  After a successful check no line is at fault
for what it says. -/
theorem run_eq_line_fault_iff_check (options : Options) (store : Store) (lines : List String) :
    (∀ shown cause, Script.run options store lines = .error (.line shown cause) ↔
      Script.check lines = .error (.line shown cause) ∧ ∃ index reached,
        Script.offending? lines = some index ∧
          Script.run options store (lines.take index) = .ok reached) ∧
    (∀ final, Script.run options store lines = .ok final →
      ∃ statements, Script.check lines = .ok statements ∧
        List.Forall₂ (fun line statement => Statement.ofLine line = .ok statement)
          (Script.performed options store lines) statements ∧
        ∀ name, name ∈ final.names ↔
          name ∈ store.names ∨ name ∈ statements.map Statement.target) ∧
    (∀ statements, Script.check lines = .ok statements →
      ∀ shown cause, Script.run options store lines ≠ .error (.line shown cause)) := by
  refine ⟨fun _ _ => Script.run_eq_line_fault, fun _ => Script.exists_check_of_run, ?_⟩
  intro statements hcheck shown cause hrun
  obtain ⟨hfault, -⟩ := Script.run_eq_line_fault.mp hrun
  rw [hcheck] at hfault
  cases hfault

/-- One script from two stores: where its first line has no value, the second one is not read. -/
theorem run_eq_line_fault_of_bound :
    Script.check ["A -> B", "B & -> C"] =
        .error (.line "B & -> C" (.grammar ⟨.operand, .arrow⟩)) ∧
      Script.run ⟨true⟩ (Store.empty.bind "A" ⟨[⟨"x", .string⟩], [[.text "a"]]⟩)
          ["A -> B", "B & -> C"] = .error (.line "B & -> C" (.grammar ⟨.operand, .arrow⟩)) ∧
      Script.run ⟨true⟩ Store.empty ["A -> B", "B & -> C"] ≠
        .error (.line "B & -> C" (.grammar ⟨.operand, .arrow⟩)) := by
  have hcheck : Script.check ["A -> B", "B & -> C"] =
      .error (.line "B & -> C" (.grammar ⟨.operand, .arrow⟩)) := by cbv
  have hbound : Script.execute ⟨true⟩ (Store.empty.bind "A" ⟨[⟨"x", .string⟩], [[.text "a"]]⟩)
      "A -> B" = .ok (some "B", _) := Script.execute_eq_ok.mpr (Or.inr ⟨by cbv,
        ⟨.named "A", "B"⟩, ⟨[⟨"x", .string⟩], [[.text "a"]]⟩, by cbv, by cbv, rfl, rfl⟩)
  have hunbound : Script.execute ⟨true⟩ Store.empty "A -> B" =
      .error (.evaluation (.undefined "A")) := Script.execute_eq_error.mpr ⟨by cbv, Or.inr
        ⟨⟨.named "A", "B"⟩, _, by cbv, by cbv, rfl⟩⟩
  have hoffending : Script.offending? ["A -> B", "B & -> C"] = some 1 := by
    rw [Script.offending?_cons_of_not_offends (Script.offends_of_execute_ok hbound),
      Script.offending?_cons_of_offends (by cbv)]
    rfl
  refine ⟨hcheck, ?_, fun hrun => ?_⟩
  · rw [(run_eq_line_fault_iff_check _ _ _).1]
    exact ⟨hcheck, 1, _, hoffending, Script.run_cons_of_ok hbound⟩
  · obtain ⟨-, index, reached, hindex, hreached⟩ :=
      ((run_eq_line_fault_iff_check _ _ _).1 _ _).mp hrun
    obtain rfl := Option.some.inj (hoffending.symm.trans hindex)
    rw [List.take_succ_cons, Script.run_cons_of_error hunbound] at hreached
    cases hreached

end RelationScript
