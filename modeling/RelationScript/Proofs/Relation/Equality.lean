/-
# Equality of relations

Numbers are equal when they stand for the same value, whatever zeros end their fractions and
whatever sign a zero has.  Rows are equal cell by cell and relations row by row.  Operators make
equal rows of equal rows.

* `Cell.Equal`, `Row.Equal`, `Relation.Equal` : equality by value;
* `Cell.equal_iff`, `Row.equal_iff` : equal cells and equal rows have one canonical form;
* `Relation.rel_combineRows`, `Relation.rel_productRows`, `Relation.keeps_eq` : the operators
  respect equality.
-/
import RelationScript.Proofs.Decimal.Value
import RelationScript.Relation.Product
import RelationScript.Relation.Selection

namespace RelationScript

/-! ## Cells -/

namespace Cell

/-- Numbers are equal by value, texts and dates only to themselves. -/
inductive Equal : Cell → Cell → Prop
  | number {a b : Decimal} (h : a.value = b.value) : Equal (number a) (number b)
  | text (s : String) : Equal (text s) (text s)
  | date (d : Date) : Equal (date d) (date d)

variable {a b a' b' : Cell}

/-- Each cell equals itself. -/
theorem Equal.refl (a : Cell) : a.Equal a := by
  cases a with
  | number n => exact .number rfl
  | text s => exact .text s
  | date d => exact .date d

/-- Equal cells have one canonical form. -/
theorem equal_iff : a.Equal b ↔ a.canonical = b.canonical := by
  constructor
  · intro h
    cases h with
    | number h => rw [canonical, canonical, Decimal.normalize_eq_iff.mpr h]
    | text s => rfl
    | date d => rfl
  · intro h
    cases a <;> cases b <;> simp only [canonical, reduceCtorEq, number.injEq, text.injEq,
      date.injEq, Decimal.normalize_eq_iff] at h
    case number.number => exact .number h
    case text.text => exact h ▸ .text _
    case date.date => exact h ▸ .date _

/-- Equal cells compare in the same way. -/
theorem Equal.compare? (ha : a.Equal a') (hb : b.Equal b') : a.compare? b = a'.compare? b' := by
  cases ha with
  | number ha =>
    cases hb with
    | number hb =>
      rw [Cell.compare?, Cell.compare?, Decimal.compareValue_eq, Decimal.compareValue_eq, ha, hb]
    | text s => rfl
    | date d => rfl
  | text s => cases hb <;> rfl
  | date d => cases hb <;> rfl

/-- Equal cells look the same. -/
theorem Equal.display (h : a.Equal b) : a.display = b.display := by
  cases h with
  | number h => rw [Cell.display, Cell.display, Decimal.normalize_eq_iff.mpr h]
  | text s => rfl
  | date d => rfl

end Cell

/-! ## Rows -/

namespace Row

/-- Rows are equal cell by cell. -/
abbrev Equal : Row → Row → Prop :=
  List.Forall₂ Cell.Equal

variable {row row' : Row} {rows rows' : List Row}

/-- Equal rows have one canonical form. -/
theorem equal_iff : Equal row row' ↔ canonical row = canonical row' := by
  have hcells : Cell.Equal = fun a b => a.canonical = b.canonical := by
    funext a b
    exact propext Cell.equal_iff
  rw [canonical, canonical, ← List.forall₂_eq_eq_eq, List.forall₂_map_left_iff,
    List.forall₂_map_right_iff, Equal, hcells]

/-- Rows are equal when their parts are. -/
theorem Equal.append {left left' right right' : Row} (hleft : Equal left left')
    (hright : Equal right right') : Equal (left ++ right) (left' ++ right') :=
  List.rel_append hleft hright

instance (row row' : Row) : Decidable (Equal row row') :=
  decidable_of_iff _ equal_iff.symm

theorem equal_equivalence : Equivalence Equal where
  refl _ := equal_iff.mpr rfl
  symm h := equal_iff.mpr (equal_iff.mp h).symm
  trans h h' := equal_iff.mpr ((equal_iff.mp h).trans (equal_iff.mp h'))

/-- A row occurs among others if one of them equals it. -/
theorem occursIn_iff : occursIn rows row = true ↔ ∃ other ∈ rows, Equal other row := by
  simp [occursIn, equal_iff]

/-- Whether a row occurs among others depends on their values only. -/
theorem Equal.occursIn (hrows : List.Forall₂ Equal rows rows') (h : Equal row row') :
    occursIn rows row = occursIn rows' row' := by
  induction hrows with
  | nil => rfl
  | cons hother _ ih =>
    rw [Row.occursIn, Row.occursIn, equal_iff.mp h] at ih ⊢
    rw [List.any_cons, List.any_cons, equal_iff.mp hother, ih]

end Row

/-! ## Parts of related lists -/

section

variable {α α' : Type} {r : α → α' → Prop} {l : List α} {l' : List α'}

theorem rel_filter {p : α → Bool} {q : α' → Bool} (hpq : ∀ a b, r a b → p a = q b)
    (h : List.Forall₂ r l l') : List.Forall₂ r (l.filter p) (l'.filter q) :=
  List.rel_filter (fun a b hab => Bool.eq_iff_iff.mp (hpq a b hab)) h

theorem map_eq_of_rel {β : Type} {f : α → β} {g : α' → β} (hfg : ∀ a b, r a b → f a = g b)
    (h : List.Forall₂ r l l') : l.map f = l'.map g := by
  rw [← List.forall₂_eq_eq_eq]
  exact List.rel_map hfg h

/-- Rows that agree one by one agree at each place. -/
theorem rel_getElem? (h : List.Forall₂ r l l') (i : ℕ) : Option.Rel r l[i]? l'[i]? := by
  induction h generalizing i with
  | nil => exact .none
  | cons h _ ih =>
    cases i with
    | zero => exact .some h
    | succ i => exact ih i

/-- Picking the same places keeps an agreement one by one. -/
theorem rel_pick (h : List.Forall₂ r l l') (indices : List ℕ) :
    List.Forall₂ r (pick indices l) (pick indices l') := by
  induction indices with
  | nil => exact .nil
  | cons i indices ih =>
    have hentry := rel_getElem? h i
    rw [pick, pick, List.filterMap_cons, List.filterMap_cons]
    generalize l[i]? = entry, l'[i]? = entry' at hentry
    cases hentry with
    | none => exact ih
    | some hentry => exact .cons hentry ih

end

/-! ## Operators -/

namespace Relation

/-- Relations are equal when they have the same heading and their rows are equal in order. -/
structure Equal (a b : Relation) : Prop where
  heading : a.heading = b.heading
  rows : List.Forall₂ Row.Equal a.rows b.rows

/-- Removing repeated rows respects equality of rows. -/
theorem rel_distinct {rows rows' : List Row} (h : List.Forall₂ Row.Equal rows rows') :
    List.Forall₂ Row.Equal (distinct rows) (distinct rows') := by
  induction h with
  | nil => exact .nil
  | cons hrow _ ih =>
    -- What is dropped behind a row are the rows equal to it.
    refine .cons hrow (rel_filter (fun other other' hother => ?_) ih)
    rw [Row.equal_iff.mp hother, Row.equal_iff.mp hrow]

/-- Each set operator respects equality of the rows on both sides. -/
theorem rel_combineRows {left left' right right' : List Row}
    (hleft : List.Forall₂ Row.Equal left left') (hright : List.Forall₂ Row.Equal right right')
    (operator : SetOperator) :
    List.Forall₂ Row.Equal (combineRows operator left right)
      (combineRows operator left' right') := by
  cases operator with
  | union => exact rel_distinct (List.rel_append hleft hright)
  | intersection => exact rel_distinct (rel_filter (fun _ _ hrow => hrow.occursIn hright) hleft)
  | difference => exact rel_filter (fun _ _ hrow => congrArg (!·) (hrow.occursIn hright)) hleft

/-- The product respects equality of the rows on both sides. -/
theorem rel_productRows {left left' right right' : List Row}
    (hleft : List.Forall₂ Row.Equal left left') (hright : List.Forall₂ Row.Equal right right') :
    List.Forall₂ Row.Equal (productRows left right) (productRows left' right') := by
  refine List.rel_flatMap hleft fun row row' hrow => List.rel_map ?_ hright
  intro other other' hother
  exact hrow.append hother

/-- Whether a comparison holds can be told from an equal row. -/
theorem keeps_eq {row row' : Row} (h : Row.Equal row row') (index : ℕ) (comparator : Comparator)
    (right : Side) : keeps index comparator right row = keeps index comparator right row' := by
  have hleft := rel_getElem? h index
  have hright : Option.Rel Cell.Equal (right.cell? row) (right.cell? row') := by
    cases right with
    | cellAt index => exact rel_getElem? h index
    | constant cell => exact .some (.refl cell)
  rw [keeps, keeps]
  generalize row[index]? = a, row'[index]? = a' at hleft
  generalize right.cell? row = b, right.cell? row' = b' at hright
  cases hleft with
  | none => rfl
  | some ha =>
    cases hright with
    | none => rfl
    | some hb => exact congrArg (·.any comparator.holds) (ha.compare? hb)

end Relation

end RelationScript
