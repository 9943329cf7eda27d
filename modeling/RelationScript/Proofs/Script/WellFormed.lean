/-
# Scripts keep relations well-formed

Documents describe well-formed relations, and every statement of a script binds one to its
name.

* `Store.WellFormed` : every relation of the store is well-formed;
* `Store.forall_of_ofJson`, `Store.wellFormed_of_ofJson` : the stores that documents describe;
* `wellFormed_of_mem_stores` : the stores of a session.
-/
import RelationScript.Document
import RelationScript.Proofs.Relation.WellFormed
import RelationScript.Proofs.Script.Runs

namespace RelationScript

/-- Every relation of the store is well-formed. -/
def Store.WellFormed (store : Store) : Prop :=
  store.All Relation.WellFormed

/-! ## Documents -/

/-- A document describes well-formed relations only. -/
theorem Relation.wellFormed_of_ofJson {name : String} {json : Json} {relation : Relation}
    (h : Relation.ofJson name json = .ok relation) : relation.WellFormed := by
  cases json with
  | object members =>
    obtain ⟨columns, -, h⟩ := bind_eq_ok.mp h
    obtain ⟨items, -, h⟩ := bind_eq_ok.mp h
    obtain ⟨heading, -, h⟩ := bind_eq_ok.mp h
    obtain ⟨rows, -, h⟩ := bind_eq_ok.mp h
    exact (Relation.build_eq_ok.mp (mapError_eq_ok.mp h)).2
  | _ => simp [Relation.ofJson] at h

/-- What holds of a store and is kept by binding each loaded relation holds of the loaded store. -/
theorem Store.forall_of_ofMembers {Inv : Store → Prop}
    (hbind : ∀ {store : Store} {name json relation}, Inv store → Text.isName name = true →
      Relation.ofJson name json = .ok relation → Inv (store.bind name relation))
    {store after : Store} {members : List (String × Json)} (hstore : Inv store)
    (h : Store.ofMembers store members = .ok after) : Inv after := by
  induction members generalizing store with
  | nil =>
    obtain rfl := Except.ok.inj h
    exact hstore
  | cons member members ih =>
    obtain ⟨name, json⟩ := member
    rw [Store.ofMembers] at h
    split at h
    next hname =>
      obtain ⟨relation, hrelation, h⟩ := bind_eq_ok.mp h
      exact ih (hbind hstore hname hrelation) h
    next => simp at h

/-- What holds without bindings, and still with one more that a document may describe, holds of
the stores that documents describe. -/
theorem Store.forall_of_ofJson {Inv : Store → Prop} (hempty : Inv .empty)
    (hbind : ∀ {store : Store} {name json relation}, Inv store → Text.isName name = true →
      Relation.ofJson name json = .ok relation → Inv (store.bind name relation))
    {json : Json} {store : Store} (h : Store.ofJson json = .ok store) : Inv store := by
  cases json with
  | object members => exact Store.forall_of_ofMembers hbind hempty h
  | _ => simp [Store.ofJson] at h

theorem Store.wellFormed_of_ofJson {json : Json} {store : Store}
    (h : Store.ofJson json = .ok store) : store.WellFormed :=
  Store.forall_of_ofJson Store.All.empty
    (fun hstore _ hrelation => Store.All.bind hstore (Relation.wellFormed_of_ofJson hrelation)) h

/-! ## Runs -/

/-- Each operator keeps relations well-formed. -/
theorem keeps_wellFormed (options : Options) :
    Keeps options (fun _ => True) Relation.WellFormed where
  combine _ := Relation.WellFormed.combine
  product _ := Relation.WellFormed.product
  project _ := Relation.WellFormed.project
  select _ := Relation.WellFormed.select

theorem Store.WellFormed.evaluate {options : Options} {store : Store} {query : Query}
    {value : Relation} (hstore : store.WellFormed)
    (h : query.evaluate store options = .ok value) : value.WellFormed :=
  (keeps_wellFormed options).evaluate hstore (fun _ _ => trivial) h

/-- Every store that a script reaches is well-formed if the first one is. -/
theorem Store.WellFormed.stores {options : Options} {store : Store} (hstore : store.WellFormed)
    (lines : List String) :
    ∀ reached ∈ Script.stores options store lines, reached.WellFormed :=
  Script.forall_mem_stores (fun hstore _ hvalue =>
    Store.All.bind hstore (Store.WellFormed.evaluate hstore hvalue)) hstore lines

/-- **Relations stay well-formed.**  From well-formed relations a session comes to none but
well-formed ones, whatever its lines are and whether they fail.  The operators and the loader
build no other relations, and these are the ones that the checking constructor accepts. -/
theorem wellFormed_of_mem_stores {store : Store} (hstore : store.WellFormed) (options : Options)
    (lines : List String) :
    (∀ reached ∈ Script.stores options store lines, reached.WellFormed) ∧
    (∀ final, Script.run options store lines = .ok final → final.WellFormed) ∧
    (∀ operator (a b c : Relation), a.WellFormed → b.WellFormed →
      a.combine operator b = .ok c → c.WellFormed) ∧
    (∀ leftLabel rightLabel (a b c : Relation), a.WellFormed → b.WellFormed →
      a.product b leftLabel rightLabel = .ok c → c.WellFormed) ∧
    (∀ names dedup (a b : Relation), a.WellFormed → a.project names dedup = .ok b →
      b.WellFormed) ∧
    (∀ name comparator comparand (a b : Relation), a.WellFormed →
      a.select name comparator comparand = .ok b → b.WellFormed) ∧
    (∀ json loaded, Store.ofJson json = .ok loaded → loaded.WellFormed) ∧
    (∀ heading rows, (Relation.mk heading rows).WellFormed ↔
      Relation.build heading rows = .ok ⟨heading, rows⟩) := by
  refine ⟨hstore.stores lines,
    fun _ hrun => hstore.stores lines _ (Script.mem_stores_of_run hrun),
    fun _ _ _ _ => .combine, fun _ _ _ _ _ => .product, fun _ _ _ _ => .project,
    fun _ _ _ _ _ => .select, fun _ _ => Store.wellFormed_of_ofJson, ?_⟩
  intro heading rows
  rw [Relation.build_eq_ok]
  simp

/-- A product of a relation with itself, and a projection of it: the relations on the way. -/
theorem wellFormed_of_selfProduct :
    (Store.empty.bind "A" ⟨[⟨"x", .string⟩], [[.text "a"], [.text "b"]]⟩).WellFormed ∧
      ∀ reached ∈ Script.stores ⟨true⟩
        (Store.empty.bind "A" ⟨[⟨"x", .string⟩], [[.text "a"], [.text "b"]]⟩)
        ["A * A -> B", "B[A_2.x, nothing] -> C", "B[A_2.x] -> A"], reached.WellFormed := by
  have hstore : (Store.empty.bind "A"
      ⟨[⟨"x", .string⟩], [[.text "a"], [.text "b"]]⟩).WellFormed :=
    Store.All.bind Store.All.empty ⟨by decide, by decide⟩
  exact ⟨hstore, (wellFormed_of_mem_stores hstore _ _).1⟩

end RelationScript
