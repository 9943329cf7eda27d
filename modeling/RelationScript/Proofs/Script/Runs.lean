/-
# Runs of scripts

What a line does to a store, and what holds all along a run or a session.

* `Keeps.evaluate` : a property of relations that the operators keep holds of every value;
* `Script.execute_eq_ok`, `Script.execute_eq_error` : all that a line can do;
* `Script.stores` : the stores that a session goes through;
* `Script.forall_mem_stores_of_mem` : what every statement keeps holds of all of them;
* `Script.firstFault?` : where a run ends in a fault, if it does.
-/
import RelationScript.Proofs.Outcome
import RelationScript.Proofs.Query.Sources
import RelationScript.Script

namespace RelationScript

/-! ## Stores -/

namespace Store

/-- Every relation of the store has a property. -/
def All (P : Relation → Prop) (store : Store) : Prop :=
  ∀ name relation, store.find? name = some relation → P relation

@[simp] theorem find?_empty (name : String) : Store.empty.find? name = none := by
  simp [find?, empty]

/-- The last binding of a name counts. -/
theorem find?_bind (store : Store) (name other : String) (relation : Relation) :
    (store.bind name relation).find? other =
      if name = other then some relation else store.find? other := by
  simp [bind, find?, Std.ExtTreeMap.getElem?_insert]

variable {P : Relation → Prop}

theorem All.empty : Store.empty.All P := by
  simp [All]

/-- One more relation with a property keeps it for all. -/
theorem All.bind {store : Store} {name : String} {relation : Relation} (h : store.All P)
    (hrelation : P relation) : (store.bind name relation).All P := by
  intro other found hfound
  rw [find?_bind] at hfound
  split at hfound
  · obtain rfl := Option.some.inj hfound
    exact hrelation
  · exact h other found hfound

end Store

/-! ## Evaluation keeps properties of relations -/

/-- The operators of the allowed queries keep a property of relations. -/
structure Keeps (options : Options) (allowed : Query → Prop) (P : Relation → Prop) : Prop where
  combine : ∀ {operator left right a b c}, allowed (.combine operator left right) →
    P a → P b → a.combine operator b = .ok c → P c
  product : ∀ {left right a b c}, allowed (.product left right) → P a → P b →
    a.product b (Query.labels left right).1 (Query.labels left right).2 = .ok c → P c
  project : ∀ {base columns text a b}, allowed (.project base columns text) → P a →
    a.project (columns.map ColumnRef.columnName) options.dedup = .ok b → P b
  select : ∀ {base condition text a b}, allowed (.select base condition text) → P a →
    a.select condition.column.columnName condition.comparator condition.operand.comparand = .ok b →
      P b

/-- What the operators keep holds of the value of a query, if it holds of the store. -/
theorem Keeps.evaluate {options : Options} {allowed : Query → Prop} {P : Relation → Prop}
    (hkeeps : Keeps options allowed P) {store : Store} (hstore : store.All P) {query : Query}
    (hallowed : ∀ part ∈ query.subqueries, allowed part) {value : Relation}
    (h : query.evaluate store options = .ok value) : P value := by
  -- The induction takes the query apart, and the operators ask about it as a whole.
  have hself := hallowed query query.mem_subqueries_self
  induction query generalizing value with
  | named name =>
    rw [Query.evaluate] at h
    split at h
    next relation hfound =>
      obtain rfl := Except.ok.inj h
      exact hstore name relation hfound
    next => simp at h
  | combine operator left right ihleft ihright =>
    simp only [Query.subqueries, List.forall_mem_cons, List.forall_mem_append] at hallowed
    obtain ⟨a, ha, h⟩ := bind_eq_ok.mp h
    obtain ⟨b, hb, h⟩ := bind_eq_ok.mp h
    have ha := ihleft hallowed.2.1 ha (hallowed.2.1 _ left.mem_subqueries_self)
    have hb := ihright hallowed.2.2 hb (hallowed.2.2 _ right.mem_subqueries_self)
    exact hkeeps.combine hself ha hb (mapError_eq_ok.mp h)
  | product left right ihleft ihright =>
    simp only [Query.subqueries, List.forall_mem_cons, List.forall_mem_append] at hallowed
    obtain ⟨a, ha, h⟩ := bind_eq_ok.mp h
    obtain ⟨b, hb, h⟩ := bind_eq_ok.mp h
    have ha := ihleft hallowed.2.1 ha (hallowed.2.1 _ left.mem_subqueries_self)
    have hb := ihright hallowed.2.2 hb (hallowed.2.2 _ right.mem_subqueries_self)
    exact hkeeps.product hself ha hb (mapError_eq_ok.mp h)
  | project base columns text ih =>
    simp only [Query.subqueries, List.forall_mem_cons] at hallowed
    obtain ⟨a, ha, h⟩ := bind_eq_ok.mp h
    have ha := ih hallowed.2 ha (hallowed.2 _ base.mem_subqueries_self)
    exact hkeeps.project hself ha (mapError_eq_ok.mp h)
  | select base condition text ih =>
    simp only [Query.subqueries, List.forall_mem_cons] at hallowed
    obtain ⟨a, ha, h⟩ := bind_eq_ok.mp h
    have ha := ih hallowed.2 ha (hallowed.2 _ base.mem_subqueries_self)
    exact hkeeps.select hself ha (mapError_eq_ok.mp h)

/-! ## Lines -/

namespace Script

variable {options : Options} {store after : Store} {line : String} {lines : List String}

theorem statement_eq_ok {statement : Statement} :
    Script.statement line = .ok statement ↔ Statement.ofLine line = .ok statement :=
  mapError_eq_ok

/-- A statement binds its target to the value of its query. -/
theorem perform_eq_ok {statement : Statement} :
    perform options store statement = .ok after ↔
      ∃ relation, statement.query.evaluate store options = .ok relation ∧
        after = store.bind statement.target relation := by
  rw [perform]
  cases statement.query.evaluate store options <;> simp [eq_comm]

/-- A statement fails with its query. -/
theorem perform_eq_error {statement : Statement} {fault : ScriptFault} :
    perform options store statement = .error fault ↔
      ∃ cause, statement.query.evaluate store options = .error cause ∧
        fault = .evaluation cause := by
  rw [perform]
  cases statement.query.evaluate store options <;> simp [eq_comm]

/-- What a line does that succeeds: nothing, or bind the value of its query. -/
theorem execute_eq_ok {bound : Option String} :
    execute options store line = .ok (bound, after) ↔
      (isSkipped line = true ∧ bound = none ∧ after = store) ∨
      (isSkipped line = false ∧ ∃ statement relation, Statement.ofLine line = .ok statement ∧
        statement.query.evaluate store options = .ok relation ∧
        bound = some statement.target ∧ after = store.bind statement.target relation) := by
  rw [execute]
  cases hskipped : isSkipped line with
  | true => simp [eq_comm]
  | false =>
    rw [if_neg Bool.false_ne_true, bind_eq_ok]
    simp only [Bool.false_eq_true, false_and, false_or, true_and]
    constructor
    · rintro ⟨statement, hline, h⟩
      obtain ⟨final, hperform, hpair⟩ := bind_eq_ok.mp h
      obtain ⟨rfl, rfl⟩ := Prod.mk.inj (Except.ok.inj hpair)
      obtain ⟨relation, hvalue, rfl⟩ := perform_eq_ok.mp hperform
      exact ⟨statement, relation, statement_eq_ok.mp hline, hvalue, rfl, rfl⟩
    · rintro ⟨statement, relation, hline, hvalue, rfl, rfl⟩
      refine ⟨statement, statement_eq_ok.mpr hline, bind_eq_ok.mpr ⟨_, ?_, rfl⟩⟩
      exact perform_eq_ok.mpr ⟨relation, hvalue, rfl⟩

/-- Why a line fails: it is no statement, or its query has no value. -/
theorem execute_eq_error {fault : ScriptFault} :
    execute options store line = .error fault ↔ isSkipped line = false ∧
      ((∃ cause, Statement.ofLine line = .error cause ∧
          fault = .line (String.ofList (Text.trim line.toList)) cause) ∨
        ∃ statement cause, Statement.ofLine line = .ok statement ∧
          statement.query.evaluate store options = .error cause ∧ fault = .evaluation cause) := by
  rw [execute]
  cases hskipped : isSkipped line with
  | true => simp
  | false =>
    rw [if_neg Bool.false_ne_true, bind_eq_error]
    simp only [true_and]
    refine or_congr ?_ ?_
    · rw [statement, mapError_eq_error]
      simp only [eq_comm]
    · -- Once the line has been read, only the query can be at fault.
      constructor
      · rintro ⟨statement, hline, h⟩
        rcases bind_eq_error.mp h with h | ⟨_, _, h⟩
        · obtain ⟨cause, hvalue, rfl⟩ := perform_eq_error.mp h
          exact ⟨statement, cause, statement_eq_ok.mp hline, hvalue, rfl⟩
        · simp [pure, Except.pure] at h
      · rintro ⟨statement, cause, hline, hvalue, rfl⟩
        refine ⟨statement, statement_eq_ok.mpr hline, bind_eq_error.mpr (Or.inl ?_)⟩
        exact perform_eq_error.mpr ⟨cause, hvalue, rfl⟩

/-! ## Runs and sessions -/

/-- The stores that a session goes through, the first included. -/
def stores (options : Options) (store : Store) (lines : List String) : List Store :=
  store :: (session options store lines).map Prod.snd

/-- The stores of a session go on from what a line leaves. -/
theorem stores_cons_of_ok {bound : Option String}
    (h : execute options store line = .ok (bound, after)) :
    stores options store (line :: lines) = store :: stores options after lines := by
  simp [stores, session, h]

/-- Behind a line that fails the stores of a session go on from the same store. -/
theorem stores_cons_of_error {fault : ScriptFault}
    (h : execute options store line = .error fault) :
    stores options store (line :: lines) = store :: stores options store lines := by
  simp [stores, session, h]

/-- What every successful statement of its lines keeps holds of all stores of a session. -/
theorem forall_mem_stores_of_mem {Inv : Store → Prop}
    (hstep : ∀ {store : Store} {line statement relation}, Inv store → line ∈ lines →
      Statement.ofLine line = .ok statement →
        statement.query.evaluate store options = .ok relation →
          Inv (store.bind statement.target relation))
    (hstore : Inv store) : ∀ reached ∈ stores options store lines, Inv reached := by
  induction lines generalizing store with
  | nil => simpa [stores, session] using hstore
  | cons line lines ih =>
    have hmore {store : Store} (hstore : Inv store) :
        ∀ reached ∈ stores options store lines, Inv reached :=
      ih (fun hkept hline => hstep hkept (List.mem_cons_of_mem _ hline)) hstore
    cases hexecute : execute options store line with
    | error fault =>
      rw [stores_cons_of_error hexecute, List.forall_mem_cons]
      exact ⟨hstore, hmore hstore⟩
    | ok outcome =>
      obtain ⟨bound, after⟩ := outcome
      rw [stores_cons_of_ok hexecute, List.forall_mem_cons]
      refine ⟨hstore, hmore ?_⟩
      -- A line that is skipped leaves the store as it is, and any other binds one value.
      rcases execute_eq_ok.mp hexecute with ⟨-, -, rfl⟩ | ⟨-, statement, relation, hline, h, -, rfl⟩
      · exact hstore
      · exact hstep hstore List.mem_cons_self hline h

/-- What every successful statement keeps holds of all stores of a session. -/
theorem forall_mem_stores {Inv : Store → Prop}
    (hstep : ∀ {store : Store} {line statement relation}, Inv store →
      Statement.ofLine line = .ok statement →
        statement.query.evaluate store options = .ok relation →
          Inv (store.bind statement.target relation))
    (hstore : Inv store) (lines : List String) :
    ∀ reached ∈ stores options store lines, Inv reached :=
  forall_mem_stores_of_mem (fun hstore _ => hstep hstore) hstore

/-- The final store of a run is one of the session on its lines. -/
theorem mem_stores_of_run {final : Store} (h : run options store lines = .ok final) :
    final ∈ stores options store lines := by
  induction lines generalizing store with
  | nil =>
    obtain rfl := Except.ok.inj h
    exact List.mem_cons_self
  | cons line lines ih =>
    obtain ⟨⟨bound, after⟩, hexecute, h⟩ := bind_eq_ok.mp h
    rw [stores_cons_of_ok hexecute]
    exact List.mem_cons_of_mem _ (ih h)

/-- A run fails at one of its lines, from a store that the session on its lines goes through. -/
theorem exists_execute_of_run_error {fault : ScriptFault}
    (h : run options store lines = .error fault) :
    ∃ reached ∈ stores options store lines, ∃ line ∈ lines,
      execute options reached line = .error fault := by
  induction lines generalizing store with
  | nil => simp [run] at h
  | cons line lines ih =>
    rcases bind_eq_error.mp h with h | ⟨⟨bound, after⟩, hexecute, h⟩
    · exact ⟨store, List.mem_cons_self, line, List.mem_cons_self, h⟩
    · obtain ⟨reached, hreached, other, hother, hfault⟩ := ih h
      rw [stores_cons_of_ok hexecute]
      exact ⟨reached, List.mem_cons_of_mem _ hreached, other, List.mem_cons_of_mem _ hother, hfault⟩

/-- The index of the line at which a run ends in a fault, and the fault. -/
def firstFault? (options : Options) (store : Store) : List String → Option (Nat × ScriptFault)
  | [] => none
  | line :: lines =>
    match execute options store line with
    | .ok (_, after) =>
      (firstFault? options after lines).map fun (index, fault) => (index + 1, fault)
    | .error fault => some (0, fault)

/-- A run goes on from what a line leaves. -/
theorem run_cons_of_ok {bound : Option String}
    (h : execute options store line = .ok (bound, after)) :
    run options store (line :: lines) = run options after lines := by
  rw [run, h]
  rfl

/-- A run ends with a line that fails. -/
theorem run_cons_of_error {fault : ScriptFault} (h : execute options store line = .error fault) :
    run options store (line :: lines) = .error fault := by
  rw [run, h]
  rfl

/-- Behind a line that succeeds, faults are found one line later. -/
theorem firstFault?_cons_of_ok {bound : Option String}
    (h : execute options store line = .ok (bound, after)) :
    firstFault? options store (line :: lines) =
      (firstFault? options after lines).map fun (index, fault) => (index + 1, fault) := by
  rw [firstFault?, h]

theorem firstFault?_cons_of_error {fault : ScriptFault}
    (h : execute options store line = .error fault) :
    firstFault? options store (line :: lines) = some (0, fault) := by
  rw [firstFault?, h]

end Script

end RelationScript
