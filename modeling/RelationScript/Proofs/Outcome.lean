/-
# Outcomes

Computations that yield a value or fail with a fault.

* `exists_forall₂`, `exists_right_of_forall₂` : lists that are related entry by entry;
* `bind_eq_ok`, `bind_eq_error` : the steps behind an outcome of two computations in a row;
* `mapM_eq_ok`, `mapM_eq_error` : and of one computation for each entry of a list;
* `Agree` : two computations fail with the same fault, or yield related values;
* `Coincide` : both yield the same value.
-/
import Mathlib

namespace RelationScript

variable {ε ε' α β : Type}

/-! ## Lists of related entries -/

/-- In two lists of related entries each entry of the one has an entry of the other. -/
theorem exists_right_of_forall₂ {r : α → β → Prop} {l : List α} {bs : List β}
    (h : List.Forall₂ r l bs) {a : α} (ha : a ∈ l) : ∃ b ∈ bs, r a b := by
  induction h with
  | nil => exact absurd ha List.not_mem_nil
  | cons hfirst hmore ih =>
    rcases List.mem_cons.mp ha with rfl | ha
    · exact ⟨_, List.mem_cons_self, hfirst⟩
    · obtain ⟨b, hb, hab⟩ := ih ha
      exact ⟨b, List.mem_cons_of_mem _ hb, hab⟩

/-- Each entry on the right has a partner on the left. -/
theorem exists_left_of_forall₂ {r : α → β → Prop} {l : List α} {bs : List β}
    (h : List.Forall₂ r l bs) {b : β} (hb : b ∈ bs) : ∃ a ∈ l, r a b :=
  exists_right_of_forall₂ h.flip hb

/-- Where each entry is related to something, there is a list of such things. -/
theorem exists_forall₂ {r : α → β → Prop} {l : List α} (h : ∀ a ∈ l, ∃ b, r a b) :
    ∃ bs, List.Forall₂ r l bs := by
  induction l with
  | nil => exact ⟨[], .nil⟩
  | cons a l ih =>
    rw [List.forall_mem_cons] at h
    obtain ⟨b, hb⟩ := h.1
    obtain ⟨bs, hbs⟩ := ih h.2
    exact ⟨b :: bs, .cons hb hbs⟩

/-! ## Steps of a computation -/

theorem ok_bind (a : α) (f : α → Except ε β) : ((.ok a : Except ε α) >>= f) = f a :=
  rfl

/-- Two computations in a row succeed if both do. -/
theorem bind_eq_ok {x : Except ε α} {f : α → Except ε β} {b : β} :
    (x >>= f) = .ok b ↔ ∃ a, x = .ok a ∧ f a = .ok b := by
  cases x <;> simp [bind, Except.bind]

/-- Two computations in a row fail with the fault of the first, or with that of the second. -/
theorem bind_eq_error {x : Except ε α} {f : α → Except ε β} {fault : ε} :
    (x >>= f) = .error fault ↔ x = .error fault ∨ ∃ a, x = .ok a ∧ f a = .error fault := by
  cases x <;> simp [bind, Except.bind]

/-- Two computations in a row avoid a fault when each of them does. -/
theorem bind_ne_error {x : Except ε α} {f : α → Except ε β} {fault : ε} (hx : x ≠ .error fault)
    (hf : ∀ a, x = .ok a → f a ≠ .error fault) : (x >>= f) ≠ .error fault := by
  intro h
  rcases bind_eq_error.mp h with h | ⟨a, ha, h⟩
  · exact hx h
  · exact hf a ha h

/-- Mapping the result of a computation leaves open whether there is one. -/
theorem map_eq_ok {f : α → β} {x : Except ε α} {b : β} :
    x.map f = .ok b ↔ ∃ a, x = .ok a ∧ f a = b := by
  cases x <;> simp [Except.map]

/-- Mapping the result of a computation leaves its fault alone. -/
theorem map_eq_error {f : α → β} {x : Except ε α} {fault : ε} :
    x.map f = .error fault ↔ x = .error fault := by
  cases x <;> simp [Except.map]

theorem mapError_eq_ok {f : ε → ε'} {x : Except ε α} {a : α} :
    x.mapError f = .ok a ↔ x = .ok a := by
  cases x <;> simp [Except.mapError]

theorem mapError_eq_error {f : ε → ε'} {x : Except ε α} {fault : ε'} :
    x.mapError f = .error fault ↔ ∃ cause, x = .error cause ∧ f cause = fault := by
  cases x <;> simp [Except.mapError]

/-- Computations for all entries of a list succeed when each of them does. -/
theorem mapM_eq_ok {f : α → Except ε β} {l : List α} {bs : List β} :
    l.mapM f = .ok bs ↔ List.Forall₂ (fun a b => f a = .ok b) l bs := by
  induction l generalizing bs with
  | nil =>
    rw [List.forall₂_nil_left_iff, List.mapM_nil]
    constructor
    · exact fun h => (Except.ok.inj h).symm
    · rintro rfl
      rfl
  | cons a l ih =>
    rw [List.mapM_cons, List.forall₂_cons_left_iff]
    constructor
    · intro h
      obtain ⟨first, hfirst, h⟩ := bind_eq_ok.mp h
      obtain ⟨more, hmore, h⟩ := bind_eq_ok.mp h
      exact ⟨first, more, hfirst, ih.mp hmore, (Except.ok.inj h).symm⟩
    · rintro ⟨first, more, hfirst, hmore, rfl⟩
      exact bind_eq_ok.mpr ⟨first, hfirst, bind_eq_ok.mpr ⟨more, ih.mpr hmore, rfl⟩⟩

/-- Where a computation succeeds under a condition, so do those for all entries under that of
each. -/
theorem mapM_eq_ok_map {f : α → Except ε β} {p : α → Prop} {g : α → β}
    (hf : ∀ a b, f a = .ok b ↔ p a ∧ g a = b) {l : List α} {bs : List β} :
    l.mapM f = .ok bs ↔ (∀ a ∈ l, p a) ∧ l.map g = bs := by
  rw [mapM_eq_ok]
  simp only [hf]
  rw [List.forall₂_and_left, ← List.forall₂_eq_eq_eq, List.forall₂_map_left_iff]

/-- They fail with the first fault: that of an entry behind entries which all succeed. -/
theorem mapM_eq_error {f : α → Except ε β} {l : List α} {fault : ε} :
    l.mapM f = .error fault ↔ ∃ before a after, l = before ++ a :: after ∧
      (∀ b ∈ before, ∃ c, f b = .ok c) ∧ f a = .error fault := by
  induction l with
  | nil => simp [pure, Except.pure]
  | cons first l ih =>
    rw [List.mapM_cons]
    constructor
    · intro h
      rcases bind_eq_error.mp h with h | ⟨c, hc, h⟩
      · exact ⟨[], first, l, rfl, by simp, h⟩
      · rcases bind_eq_error.mp h with h | ⟨_, _, h⟩
        · obtain ⟨before, a, after, rfl, hbefore, ha⟩ := ih.mp h
          exact ⟨first :: before, a, after, rfl, List.forall_mem_cons.mpr ⟨⟨c, hc⟩, hbefore⟩, ha⟩
        · cases h
    · rintro ⟨before, a, after, hl, hbefore, ha⟩
      cases before with
      | nil =>
        obtain ⟨rfl, rfl⟩ := List.cons.inj hl
        exact bind_eq_error.mpr (Or.inl ha)
      | cons b before =>
        obtain ⟨rfl, rfl⟩ := List.cons.inj hl
        obtain ⟨⟨c, hc⟩, hbefore⟩ := List.forall_mem_cons.mp hbefore
        have hmore := ih.mpr ⟨before, a, after, rfl, hbefore, ha⟩
        exact bind_eq_error.mpr (Or.inr ⟨c, hc, bind_eq_error.mpr (Or.inl hmore)⟩)

/-! ## Agreement -/

/-- Both fail with the same fault, or both yield values that are related. -/
inductive Agree (r : α → β → Prop) : Except ε α → Except ε β → Prop
  | ok {a : α} {b : β} (h : r a b) : Agree r (.ok a) (.ok b)
  | error (fault : ε) : Agree r (.error fault) (.error fault)

namespace Agree

variable {γ δ : Type} {r : α → β → Prop} {s : γ → δ → Prop}

/-- The two ways to agree. -/
theorem cases_eq {x : Except ε α} {y : Except ε β} (h : Agree r x y) :
    (∃ a b, x = .ok a ∧ y = .ok b ∧ r a b) ∨ ∃ fault, x = .error fault ∧ y = .error fault := by
  cases h with
  | ok h => exact Or.inl ⟨_, _, rfl, rfl, h⟩
  | error fault => exact Or.inr ⟨fault, rfl, rfl⟩

/-- Agreement can be read the other way round. -/
theorem swap {x : Except ε α} {y : Except ε β} (h : Agree r x y) : Agree (fun b a => r a b) y x := by
  cases h with
  | ok h => exact .ok h
  | error fault => exact .error fault

/-- Two computations in a row agree when they do so step by step. -/
theorem bind {x : Except ε α} {y : Except ε β} {f : α → Except ε γ} {g : β → Except ε δ}
    (h : Agree r x y) (hnext : ∀ a b, r a b → Agree s (f a) (g b)) :
    Agree s (x >>= f) (y >>= g) := by
  cases h with
  | ok h => exact hnext _ _ h
  | error fault => exact .error fault

/-- It is enough to compare what follows a step that both share. -/
theorem bind_left {x : Except ε α} {f : α → Except ε γ} {g : α → Except ε δ}
    (hnext : ∀ a, x = .ok a → Agree s (f a) (g a)) : Agree s (x >>= f) (x >>= g) := by
  cases x with
  | ok a => exact hnext a rfl
  | error fault => exact .error fault

/-- Computations agree up to what makes their outcomes equal. -/
theorem of_map_eq {x : Except ε α} {y : Except ε β} {f : α → γ} {g : β → γ}
    (h : x.map f = y.map g) : Agree (fun a b => f a = g b) x y := by
  cases x with
  | error fault =>
    cases y with
    | error other =>
      obtain rfl : fault = other := Except.error.inj h
      exact .error fault
    | ok b => cases h
  | ok a =>
    cases y with
    | error other => cases h
    | ok b => exact .ok (Except.ok.inj h)

/-- Computations that agree still do when their faults are renamed alike. -/
theorem mapError {x : Except ε α} {y : Except ε β} (f : ε → ε') (h : Agree r x y) :
    Agree r (x.mapError f) (y.mapError f) := by
  cases h with
  | ok h => exact .ok h
  | error fault => exact .error (f fault)

end Agree

/-- Both yield a value, and the same one. -/
def Coincide (x y : Except ε α) : Prop :=
  ∃ a, x = .ok a ∧ y = .ok a

theorem Coincide.of_eq {a b : α} (h : a = b) : Coincide (.ok a : Except ε α) (.ok b) :=
  ⟨a, rfl, congrArg Except.ok h.symm⟩

end RelationScript
