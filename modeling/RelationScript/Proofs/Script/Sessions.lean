/-
# Sessions

A session goes on after lines that fail.  Such a line binds nothing, also where lines are executed
on one store in place, so it could as well be left out: what the other lines lead to is what a run
of them alone leads to.

* `Script.selected`, `Script.accepted` : the lines of a session by their outcome;
* `Script.executeInPlace` : a line on a store in place, where nothing is undone after a fault;
* `Script.sessionInPlace_eq` : sessions in place are the same sessions;
* `Script.Steps` : what each line of a session may change;
* `run_accepted_eq_ok` : sessions and runs.
-/
import RelationScript.Proofs.Script.Runs

namespace RelationScript

/-- The fault of a computation that fails. -/
def fault? {ε α : Type} : Except ε α → Option ε
  | .ok _ => none
  | .error fault => some fault

namespace Script

variable {options : Options} {store after : Store} {line : String} {lines : List String}

/-! ## Lines of a session -/

/-- The lines of a session whose outcome has a property. -/
def selected (p : Except ScriptFault (Option String) → Bool) (options : Options) (store : Store)
    (lines : List String) : List String :=
  ((lines.zip (session options store lines)).filter fun item => p item.2.1).map Prod.fst

/-- The lines of a session that succeed. -/
def accepted (options : Options) (store : Store) (lines : List String) : List String :=
  selected Except.isOk options store lines

/-- The store that a session ends with. -/
def lastStore (options : Options) (store : Store) (lines : List String) : Store :=
  (stores options store lines).getLast (List.cons_ne_nil _ _)

/-- The fault of the first line of a session that fails. -/
def sessionFault? (options : Options) (store : Store) (lines : List String) :
    Option ScriptFault :=
  (session options store lines).findSome? fun item => fault? item.1

section

variable {bound : Option String} {fault : ScriptFault}

theorem session_cons_of_ok (h : execute options store line = .ok (bound, after)) :
    session options store (line :: lines) = (.ok bound, after) :: session options after lines := by
  rw [session, h]

theorem session_cons_of_error (h : execute options store line = .error fault) :
    session options store (line :: lines) =
      (.error fault, store) :: session options store lines := by
  rw [session, h]

/-- Lines that succeed are selected by what they bind. -/
theorem selected_cons_of_ok (p : Except ScriptFault (Option String) → Bool)
    (h : execute options store line = .ok (bound, after)) :
    selected p options store (line :: lines) =
      if p (.ok bound) then line :: selected p options after lines
      else selected p options after lines := by
  unfold selected
  rw [session_cons_of_ok h, List.zip_cons_cons, List.filter_cons]
  split <;> rfl

/-- Lines that fail are selected by their fault, and the store is left alone. -/
theorem selected_cons_of_error (p : Except ScriptFault (Option String) → Bool)
    (h : execute options store line = .error fault) :
    selected p options store (line :: lines) =
      if p (.error fault) then line :: selected p options store lines
      else selected p options store lines := by
  unfold selected
  rw [session_cons_of_error h, List.zip_cons_cons, List.filter_cons]
  split <;> rfl

/-- The last store is that of the lines behind a line that succeeds. -/
theorem lastStore_cons_of_ok (h : execute options store line = .ok (bound, after)) :
    lastStore options store (line :: lines) = lastStore options after lines := by
  unfold lastStore
  simp only [stores_cons_of_ok h]
  exact List.getLast_cons (List.cons_ne_nil _ _)

theorem lastStore_cons_of_error (h : execute options store line = .error fault) :
    lastStore options store (line :: lines) = lastStore options store lines := by
  unfold lastStore
  simp only [stores_cons_of_error h]
  exact List.getLast_cons (List.cons_ne_nil _ _)

end

/-! ## Lines in place -/

/-- Bind the result of a statement in place. -/
def performInPlace (options : Options) (statement : Statement) :
    ExceptT ScriptFault (StateM Store) Unit := do
  let store ← get
  let relation ← MonadExcept.ofExcept
    ((statement.query.evaluate store options).mapError ScriptFault.evaluation)
  modify (Store.bind · statement.target relation)

/-- Execute a line on a store in place.  What has been done to the store when a fault occurs stays
done. -/
def executeInPlace (options : Options) (line : String) :
    ExceptT ScriptFault (StateM Store) (Option String) := do
  if isSkipped line then
    return none
  else
    let stmt ← MonadExcept.ofExcept (statement line)
    performInPlace options stmt
    return some stmt.target

/-- The outcome of each line, and the store after it, where all lines work on one store. -/
def sessionInPlace (options : Options) (store : Store) :
    List String → List (Except ScriptFault (Option String) × Store)
  | [] => []
  | line :: lines =>
    let done := (executeInPlace options line).run.run store
    done :: sessionInPlace options done.2 lines

/-- In place, a statement that fails leaves the store as it was. -/
theorem run_performInPlace (options : Options) (store : Store) (statement : Statement) :
    (performInPlace options statement).run.run store =
      match perform options store statement with
      | .ok after => (.ok (), after)
      | .error fault => (.error fault, store) := by
  unfold perform
  -- The store is read first, and the query is evaluated in it as it stands.
  show (MonadExcept.ofExcept ((statement.query.evaluate store options).mapError _) >>=
    fun relation => modify (Store.bind · statement.target relation) :
      ExceptT ScriptFault (StateM Store) Unit).run.run store = _
  cases statement.query.evaluate store options with
  | error cause => rfl
  | ok relation => rfl

/-- In place a line does what it does to a store that is handed on, and a line that fails has not
touched the store. -/
theorem run_executeInPlace (options : Options) (store : Store) (line : String) :
    (executeInPlace options line).run.run store =
      match execute options store line with
      | .ok (bound, after) => (.ok bound, after)
      | .error fault => (.error fault, store) := by
  unfold executeInPlace execute
  cases isSkipped line with
  | true => rfl
  | false =>
    cases statement line with
    | error fault => rfl
    | ok stmt =>
      have hperform := run_performInPlace options store stmt
      -- The line has been read; both sides go on with the statement and return its target.
      show (performInPlace options stmt >>= fun _ => pure (some stmt.target)).run.run store =
        match (perform options store stmt >>= fun after => pure (some stmt.target, after) :
          Except ScriptFault (Option String × Store)) with
        | .ok (bound, after) => (.ok bound, after)
        | .error fault => (.error fault, store)
      cases hresult : perform options store stmt with
      | error fault =>
        rw [hresult] at hperform
        simp only [bind_pure_comp, ExceptT.run_map, StateT.run_map, hperform]
        rfl
      | ok after =>
        rw [hresult] at hperform
        simp only [bind_pure_comp, ExceptT.run_map, StateT.run_map, hperform]
        rfl

/-- **A session in place is a session**: no line leaves anything behind but what it binds. -/
theorem sessionInPlace_eq (options : Options) (store : Store) (lines : List String) :
    sessionInPlace options store lines = session options store lines := by
  induction lines generalizing store with
  | nil => rfl
  | cons line lines ih =>
    rw [sessionInPlace, run_executeInPlace]
    cases hexecute : execute options store line with
    | error fault => rw [session_cons_of_error hexecute, ← ih store]
    | ok outcome =>
      obtain ⟨bound, after⟩ := outcome
      rw [session_cons_of_ok hexecute, ← ih after]

/-! ## What lines change -/

/-- A line takes a store to another one: the value that the query has in the store before is
bound to the target, and nothing else is touched. -/
inductive Step (options : Options) (store : Store) (line : String) :
    Except ScriptFault (Option String) → Store → Prop
  | bound {statement : Statement} {relation : Relation} {after : Store}
      (hskipped : isSkipped line = false) (hline : Statement.ofLine line = .ok statement)
      (hvalue : statement.query.evaluate store options = .ok relation)
      (hfound : after.find? statement.target = some relation)
      (hkept : ∀ other ≠ statement.target, after.find? other = store.find? other) :
      Step options store line (.ok (some statement.target)) after
  | skipped (hskipped : isSkipped line = true) : Step options store line (.ok none) store
  | failed {fault : ScriptFault} (h : execute options store line = .error fault) :
      Step options store line (.error fault) store

/-- Line by line, from one store to the next. -/
inductive Steps (options : Options) :
    Store → List String → List (Except ScriptFault (Option String) × Store) → Prop
  | nil (store : Store) : Steps options store [] []
  | cons {store after : Store} {line : String} {lines : List String}
      {outcome : Except ScriptFault (Option String)}
      {more : List (Except ScriptFault (Option String) × Store)}
      (hline : Step options store line outcome after) (hlines : Steps options after lines more) :
      Steps options store (line :: lines) ((outcome, after) :: more)

/-- What a line that succeeds does is a step. -/
theorem step_of_execute_eq_ok {bound : Option String}
    (h : execute options store line = .ok (bound, after)) :
    Step options store line (.ok bound) after := by
  rcases execute_eq_ok.mp h with
    ⟨hskipped, rfl, rfl⟩ | ⟨hskipped, statement, relation, hline, hvalue, rfl, rfl⟩
  · exact .skipped hskipped
  · refine .bound hskipped hline hvalue ?_ fun other hother => ?_
    · rw [Store.find?_bind, if_pos rfl]
    · rw [Store.find?_bind, if_neg (Ne.symm hother)]

/-- A session goes step by step. -/
theorem steps_session (options : Options) (store : Store) (lines : List String) :
    Steps options store lines (session options store lines) := by
  induction lines generalizing store with
  | nil => exact .nil store
  | cons line lines ih =>
    cases hexecute : execute options store line with
    | error fault =>
      rw [session_cons_of_error hexecute]
      exact .cons (.failed hexecute) (ih store)
    | ok outcome =>
      obtain ⟨bound, after⟩ := outcome
      rw [session_cons_of_ok hexecute]
      exact .cons (step_of_execute_eq_ok hexecute) (ih after)

/-! ## Sessions and runs -/

/-- The lines that a session accepts can be run without a fault, and lead to its last store. -/
theorem run_accepted (options : Options) (store : Store) (lines : List String) :
    run options store (accepted options store lines) = .ok (lastStore options store lines) := by
  induction lines generalizing store with
  | nil => rfl
  | cons line lines ih =>
    cases hexecute : execute options store line with
    | error fault =>
      -- The store is the same one without the line.
      rw [accepted, selected_cons_of_error _ hexecute, lastStore_cons_of_error hexecute]
      exact ih store
    | ok outcome =>
      obtain ⟨bound, after⟩ := outcome
      rw [accepted, selected_cons_of_ok _ hexecute, lastStore_cons_of_ok hexecute]
      show run options store (line :: accepted options after lines) = _
      rw [run_cons_of_ok hexecute]
      exact ih after

/-- A run ends with the first fault of the session, or in its last store. -/
theorem run_eq_session (options : Options) (store : Store) (lines : List String) :
    run options store lines =
      (sessionFault? options store lines).elim (.ok (lastStore options store lines)) .error := by
  induction lines generalizing store with
  | nil => rfl
  | cons line lines ih =>
    unfold sessionFault?
    cases hexecute : execute options store line with
    | error fault =>
      rw [run_cons_of_error hexecute, session_cons_of_error hexecute]
      rfl
    | ok outcome =>
      obtain ⟨bound, after⟩ := outcome
      rw [run_cons_of_ok hexecute, session_cons_of_ok hexecute, lastStore_cons_of_ok hexecute]
      exact ih after

end Script

/-- **Lines that fail leave no trace.**  A session ends with the store that a run of its lines
without those that fail leads to.  A run of all of them has the first fault of the session, or
else its last store.  Also in place no line touches anything but the binding it makes, and that
only when it succeeds. -/
theorem run_accepted_eq_ok (options : Options) (store : Store) (lines : List String) :
    Script.run options store (Script.accepted options store lines) =
        .ok (Script.lastStore options store lines) ∧
      Script.run options store lines = (Script.sessionFault? options store lines).elim
        (.ok (Script.lastStore options store lines)) .error ∧
      Script.sessionInPlace options store lines = Script.session options store lines ∧
      Script.Steps options store lines (Script.session options store lines) :=
  ⟨Script.run_accepted options store lines, Script.run_eq_session options store lines,
    Script.sessionInPlace_eq options store lines, Script.steps_session options store lines⟩

end RelationScript
