/-
# Two runs side by side

A script is run from two stores, perhaps with two options.  If every operator takes related
relations to related ones, or fails on both sides with the same fault, then so does a query, a
line and a whole script.

* `Store.Related` : two stores bind the same names, to related relations;
* `Congruence`, `Congruence.of_rows` : what the operators have to do;
* `Congruence.evaluate_of_sources`, `Congruence.evaluate` : what queries do then;
* `Congruence.run`, `Congruence.firstFault?` : what scripts do then.
-/
import RelationScript.Proofs.Relation.WellFormed
import RelationScript.Proofs.Script.Runs

namespace RelationScript

/-! ## Related stores -/

/-- Both stores bind the same names, to relations that are related. -/
def Store.Related (r : Relation → Relation → Prop) (store store' : Store) : Prop :=
  ∀ name, Option.Rel r (store.find? name) (store'.find? name)

namespace Store.Related

variable {r : Relation → Relation → Prop} {store store' : Store}

theorem empty : Related r Store.empty Store.empty := by
  intro name
  rw [find?_empty]
  exact .none

theorem refl (hr : ∀ relation, r relation relation) (store : Store) : store.Related r store := by
  intro name
  cases store.find? name with
  | none => exact .none
  | some relation => exact .some (hr relation)

/-- Stores that agree still do when agreeing relations are bound to one name. -/
theorem bind (h : store.Related r store') (name : String) {a b : Relation} (hab : r a b) :
    (store.bind name a).Related r (store'.bind name b) := by
  intro other
  rw [find?_bind, find?_bind]
  by_cases hname : name = other
  · rw [if_pos hname, if_pos hname]
    exact .some hab
  · rw [if_neg hname, if_neg hname]
    exact h other

end Store.Related

/-! ## Congruences -/

/-- The operators of the allowed queries agree on related operands. -/
structure Congruence (options options' : Options) (allowed : Query → Prop)
    (r : Relation → Relation → Prop) : Prop where
  combine : ∀ {operator left right a b a' b'}, allowed (.combine operator left right) →
    r a a' → r b b' → Agree r (a.combine operator b) (a'.combine operator b')
  product : ∀ {left right a b a' b'}, allowed (.product left right) → r a a' → r b b' →
    Agree r (a.product b (Query.labels left right).1 (Query.labels left right).2)
      (a'.product b' (Query.labels left right).1 (Query.labels left right).2)
  project : ∀ {base columns text a a'}, allowed (.project base columns text) → r a a' →
    Agree r (a.project (columns.map ColumnRef.columnName) options.dedup)
      (a'.project (columns.map ColumnRef.columnName) options'.dedup)
  select : ∀ {base condition text a a'}, allowed (.select base condition text) → r a a' →
    Agree r
      (a.select condition.column.columnName condition.comparator condition.operand.comparand)
      (a'.select condition.column.columnName condition.comparator condition.operand.comparand)

/-- Relations may be related by having one heading and related rows.  Faults and headings agree
then whatever the rows are, and it is enough to look at how the operators make rows, those of them
that are allowed. -/
theorem Congruence.of_rows {options options' : Options} {allowed : Query → Prop}
    {r : Relation → Relation → Prop} (rows : List Row → List Row → Prop)
    (hr : ∀ a b : Relation, r a b ↔ a.heading = b.heading ∧ rows a.rows b.rows)
    (hcombine : ∀ {operator query query'}, allowed (.combine operator query query') →
      ∀ left left' right right', rows left left' → rows right right' →
        rows (Relation.combineRows operator left right)
          (Relation.combineRows operator left' right'))
    (hproduct : ∀ left left' right right', rows left left' → rows right right' →
      rows (Relation.productRows left right) (Relation.productRows left' right'))
    (hproject : ∀ indices whole whole', rows whole whole' →
      rows (Relation.projectRows options.dedup indices whole)
        (Relation.projectRows options'.dedup indices whole'))
    (hselect : ∀ index comparator right whole whole', rows whole whole' →
      rows (whole.filter (Relation.keeps index comparator right))
        (whole'.filter (Relation.keeps index comparator right))) :
    Congruence options options' allowed r where
  combine := by
    intro operator left right a b a' b' hallowed ha hb
    obtain ⟨hheading, ha⟩ := (hr _ _).mp ha
    obtain ⟨hheading', hb⟩ := (hr _ _).mp hb
    rw [Relation.combine, Relation.combine, hheading, hheading']
    by_cases h : a'.heading = b'.heading
    · rw [if_pos h, if_pos h]
      exact .ok ((hr _ _).mpr ⟨rfl, hcombine hallowed _ _ _ _ ha hb⟩)
    · rw [if_neg h, if_neg h]
      exact .error _
  product := by
    intro left right a b a' b' _ ha hb
    obtain ⟨hheading, ha⟩ := (hr _ _).mp ha
    obtain ⟨hheading', hb⟩ := (hr _ _).mp hb
    rw [Relation.product, Relation.product, hheading, hheading']
    refine Agree.bind_left fun heading _ => .ok ?_
    exact (hr _ _).mpr ⟨rfl, hproduct _ _ _ _ ha hb⟩
  project := by
    intro base columns text a a' _ ha
    obtain ⟨hheading, ha⟩ := (hr _ _).mp ha
    rw [Relation.project, Relation.project, hheading]
    refine Agree.bind_left fun indices _ => Agree.bind_left fun heading _ => .ok ?_
    exact (hr _ _).mpr ⟨rfl, hproject _ _ _ ha⟩
  select := by
    intro base condition text a a' _ ha
    obtain ⟨hheading, ha⟩ := (hr _ _).mp ha
    rw [Relation.select, Relation.select, hheading]
    refine Agree.bind_left fun column _ => Agree.bind_left fun right _ => .ok ?_
    exact (hr _ _).mpr ⟨rfl, hselect _ _ _ _ _ ha⟩

namespace Congruence

variable {options options' : Options} {allowed : Query → Prop} {r : Relation → Relation → Prop}
  {store store' : Store}

/-- A query fails with the same fault, or has related values, if the relations that it mentions are
related. -/
theorem evaluate_of_sources (hcongr : Congruence options options' allowed r) {query : Query}
    (hsources : ∀ name ∈ query.sources, Option.Rel r (store.find? name) (store'.find? name))
    (hallowed : ∀ part ∈ query.subqueries, allowed part) :
    Agree r (query.evaluate store options) (query.evaluate store' options') := by
  have hself := hallowed query query.mem_subqueries_self
  induction query with
  | named name =>
    have hfound := hsources name (List.mem_singleton_self name)
    rw [Query.evaluate, Query.evaluate]
    generalize store.find? name = found, store'.find? name = found' at hfound
    cases hfound with
    | some h => exact .ok h
    | none => exact .error _
  | combine operator left right ihleft ihright =>
    simp only [Query.subqueries, List.forall_mem_cons, List.forall_mem_append] at hallowed
    rw [Query.sources, List.forall_mem_append] at hsources
    have hleft := ihleft hsources.1 hallowed.2.1 (hallowed.2.1 _ left.mem_subqueries_self)
    have hright := ihright hsources.2 hallowed.2.2 (hallowed.2.2 _ right.mem_subqueries_self)
    -- The operands agree one after the other, and then the operator does.
    refine hleft.bind fun a a' ha => hright.bind fun b b' hb => ?_
    exact (hcongr.combine hself ha hb).mapError _
  | product left right ihleft ihright =>
    simp only [Query.subqueries, List.forall_mem_cons, List.forall_mem_append] at hallowed
    rw [Query.sources, List.forall_mem_append] at hsources
    have hleft := ihleft hsources.1 hallowed.2.1 (hallowed.2.1 _ left.mem_subqueries_self)
    have hright := ihright hsources.2 hallowed.2.2 (hallowed.2.2 _ right.mem_subqueries_self)
    refine hleft.bind fun a a' ha => hright.bind fun b b' hb => ?_
    exact (hcongr.product hself ha hb).mapError _
  | project base columns text ih =>
    simp only [Query.subqueries, List.forall_mem_cons] at hallowed
    have hbase := ih hsources hallowed.2 (hallowed.2 _ base.mem_subqueries_self)
    exact hbase.bind fun a a' ha => (hcongr.project hself ha).mapError _
  | select base condition text ih =>
    simp only [Query.subqueries, List.forall_mem_cons] at hallowed
    have hbase := ih hsources hallowed.2 (hallowed.2 _ base.mem_subqueries_self)
    exact hbase.bind fun a a' ha => (hcongr.select hself ha).mapError _

/-- A query fails with the same fault in related stores, or has related values. -/
theorem evaluate (hcongr : Congruence options options' allowed r)
    (hstores : store.Related r store') {query : Query}
    (hallowed : ∀ part ∈ query.subqueries, allowed part) :
    Agree r (query.evaluate store options) (query.evaluate store' options') :=
  hcongr.evaluate_of_sources (fun name _ => hstores name) hallowed

/-! ## Lines and runs -/

/-- A statement takes stores that agree to stores that agree, or fails alike in both. -/
theorem perform (hcongr : Congruence options options' (fun _ => True) r)
    (hstores : store.Related r store') (statement : Statement) :
    Agree (Store.Related r) (Script.perform options store statement)
      (Script.perform options' store' statement) := by
  have hvalues : Agree r (statement.query.evaluate store options)
      (statement.query.evaluate store' options') :=
    hcongr.evaluate hstores fun _ _ => trivial
  rw [Script.perform, Script.perform]
  rcases hvalues.cases_eq with ⟨a, b, ha, hb, hab⟩ | ⟨fault, ha, hb⟩
  · rw [ha, hb]
    exact .ok (hstores.bind _ hab)
  · rw [ha, hb]
    exact .error _

/-- A line fails with the same fault in related stores, or binds the same name and leads to
related stores. -/
theorem execute (hcongr : Congruence options options' (fun _ => True) r)
    (hstores : store.Related r store') (line : String) :
    Agree (fun outcome outcome' => outcome.1 = outcome'.1 ∧ outcome.2.Related r outcome'.2)
      (Script.execute options store line) (Script.execute options' store' line) := by
  rw [Script.execute, Script.execute]
  by_cases hskipped : Script.isSkipped line = true
  · rw [if_pos hskipped, if_pos hskipped]
    exact .ok ⟨rfl, hstores⟩
  · rw [if_neg hskipped, if_neg hskipped]
    -- The statement of a line is the same in every store.
    refine Agree.bind_left fun statement _ => ?_
    exact (hcongr.perform hstores statement).bind fun _ _ hafter => .ok ⟨rfl, hafter⟩

/-- A script fails with the same fault from related stores, or leads to related stores. -/
theorem run (hcongr : Congruence options options' (fun _ => True) r)
    (hstores : store.Related r store') (lines : List String) :
    Agree (Store.Related r) (Script.run options store lines)
      (Script.run options' store' lines) := by
  induction lines generalizing store store' with
  | nil => exact .ok hstores
  | cons line lines ih => exact (hcongr.execute hstores line).bind fun _ _ h => ih h.2

/-- A script fails at the same line from related stores. -/
theorem firstFault? (hcongr : Congruence options options' (fun _ => True) r)
    (hstores : store.Related r store') (lines : List String) :
    Script.firstFault? options store lines = Script.firstFault? options' store' lines := by
  induction lines generalizing store store' with
  | nil => rfl
  | cons line lines ih =>
    rcases (hcongr.execute hstores line).cases_eq with
      ⟨⟨bound, after⟩, ⟨bound', after'⟩, h, h', -, hafter⟩ | ⟨fault, h, h'⟩
    · rw [Script.firstFault?_cons_of_ok h, Script.firstFault?_cons_of_ok h', ih hafter]
    · rw [Script.firstFault?_cons_of_error h, Script.firstFault?_cons_of_error h']

end Congruence

end RelationScript
