/-
# Rows without repeats

Dropping every row that equals an earlier one leaves the first occurrences.  It commutes with
every way to make rows of rows that respects equality, as long as it is done once more in the end.

* `distinct_eq_eraseDupsBy` : the first occurrences are those of the standard library;
* `distinct_filter`, `distinct_append` : first occurrences among chosen and among further rows;
* `distinct_flatMap_distinct`, `distinct_map_distinct` : repeats make nothing but repeats;
* `distinct_combineRows`, `distinct_productRows` : and so under set operators and in products;
* `filter_combineRows` : a test that respects equality passes through set operators.
-/
import RelationScript.Proofs.Relation.Equality
import RelationScript.Proofs.Relation.WellFormed

namespace RelationScript.Relation

/-! ## First occurrences -/

/-- A test that does not tell equal rows apart. -/
def Respects (p : Row → Bool) : Prop :=
  ∀ row row', Row.Equal row row' → p row = p row'

/-- The first row is kept, and those equal to it are left out behind it. -/
theorem distinct_cons (row : Row) (rows : List Row) :
    distinct (row :: rows) =
      row :: (distinct rows).filter fun other => !decide (Row.Equal other row) := by
  rw [distinct]
  refine congrArg _ (List.filter_congr fun other _ => ?_)
  rw [Bool.eq_iff_iff]
  simp [Row.equal_iff]

/-- Among the rows that pass a test, the first occurrences are those that pass it. -/
theorem distinct_filter {p : Row → Bool} (hp : Respects p) (rows : List Row) :
    distinct (rows.filter p) = (distinct rows).filter p := by
  induction rows with
  | nil => rfl
  | cons row rows ih =>
    rw [distinct_cons]
    by_cases hrow : p row = true
    · rw [List.filter_cons_of_pos hrow, List.filter_cons_of_pos hrow, distinct_cons, ih,
        List.filter_comm]
    · rw [List.filter_cons_of_neg hrow, List.filter_cons_of_neg hrow, ih, List.filter_filter]
      -- The rows dropped behind this one do not pass the test either.
      refine List.filter_congr fun other _ => ?_
      by_cases hother : Row.Equal other row
      · simp [hp other row hother, hrow]
      · simp [hother]

/-- The first occurrences are those of the standard library. -/
theorem distinct_eq_eraseDupsBy (rows : List Row) :
    distinct rows = rows.eraseDupsBy fun row other => decide (Row.Equal row other) := by
  induction hlength : rows.length using Nat.strong_induction_on generalizing rows with
  | h n ih =>
    cases rows with
    | nil => rfl
    | cons row rows =>
      have hrespects : Respects fun other => !decide (Row.Equal other row) := by
        intro other other' h
        simp only [Row.equal_iff] at h ⊢
        rw [h]
      have hshorter := List.length_filter_le (fun other => !decide (Row.Equal other row)) rows
      rw [List.length_cons] at hlength
      -- The library drops the repeats of a row first and goes on with what is left.
      rw [distinct_cons, ← distinct_filter hrespects, ih _ (by omega) _ rfl, List.eraseDupsBy_cons]
      simp

/-- Each row is represented by an equal one. -/
theorem exists_mem_distinct {rows : List Row} {row : Row} (h : row ∈ rows) :
    ∃ other ∈ distinct rows, Row.Equal other row := by
  induction rows with
  | nil => exact absurd h List.not_mem_nil
  | cons first rows ih =>
    rw [distinct_cons]
    by_cases hfirst : Row.Equal first row
    · exact ⟨first, List.mem_cons_self, hfirst⟩
    · have hne : row ≠ first := by
        rintro rfl
        exact hfirst (Row.equal_equivalence.refl row)
      obtain ⟨other, hother, hequal⟩ := ih ((List.mem_cons.mp h).resolve_left hne)
      refine ⟨other, List.mem_cons_of_mem _ (List.mem_filter.mpr ⟨hother, ?_⟩), hequal⟩
      have hkept : ¬ Row.Equal other first := fun h =>
        hfirst (Row.equal_equivalence.trans (Row.equal_equivalence.symm h) hequal)
      simpa using hkept

/-- The same rows occur among the first occurrences. -/
theorem occursIn_distinct (rows : List Row) :
    Row.occursIn (distinct rows) = Row.occursIn rows := by
  funext row
  rw [Bool.eq_iff_iff, Row.occursIn_iff, Row.occursIn_iff]
  constructor
  · rintro ⟨other, hother, hequal⟩
    exact ⟨other, mem_of_mem_distinct hother, hequal⟩
  · rintro ⟨other, hother, hequal⟩
    obtain ⟨first, hfirst, hsame⟩ := exists_mem_distinct hother
    exact ⟨first, hfirst, Row.equal_equivalence.trans hsame hequal⟩

/-- Whether a row occurs depends on the representatives only. -/
theorem occursIn_congr {rows rows' : List Row} (h : distinct rows = distinct rows') :
    Row.occursIn rows = Row.occursIn rows' := by
  rw [← occursIn_distinct rows, h, occursIn_distinct]

/-- A row occurs as the first one or among the others. -/
theorem occursIn_cons (first row : Row) (rows : List Row) :
    Row.occursIn (first :: rows) row =
      (decide (Row.Equal row first) || Row.occursIn rows row) := by
  rw [Bool.eq_iff_iff, Bool.or_eq_true, decide_eq_true_eq, Row.occursIn_iff, Row.occursIn_iff,
    List.exists_mem_cons_iff]
  exact or_congr_left ⟨Row.equal_equivalence.symm, Row.equal_equivalence.symm⟩

/-- A row occurs in either part. -/
theorem occursIn_append (rows more : List Row) (row : Row) :
    Row.occursIn (rows ++ more) row = (Row.occursIn rows row || Row.occursIn more row) :=
  List.any_append

/-- A row occurs among the rows that pass a test if it passes the test and occurs at all. -/
theorem occursIn_filter {p : Row → Bool} (hp : Respects p) (rows : List Row) (row : Row) :
    Row.occursIn (rows.filter p) row = (p row && Row.occursIn rows row) := by
  rw [Bool.eq_iff_iff, Bool.and_eq_true, Row.occursIn_iff, Row.occursIn_iff]
  constructor
  · rintro ⟨other, hother, hequal⟩
    obtain ⟨hother, hpasses⟩ := List.mem_filter.mp hother
    refine ⟨?_, other, hother, hequal⟩
    rw [← hp other row hequal, hpasses]
  · rintro ⟨hrow, other, hother, hequal⟩
    refine ⟨other, List.mem_filter.mpr ⟨hother, ?_⟩, hequal⟩
    rw [hp other row hequal, hrow]

theorem respects_occursIn (rows : List Row) : Respects (Row.occursIn rows) :=
  fun _ _ h => h.occursIn (List.forall₂_same.mpr fun row _ => Row.equal_equivalence.refl row)

theorem respects_keeps (index : ℕ) (comparator : Comparator) (right : Side) :
    Respects (keeps index comparator right) :=
  fun _ _ h => keeps_eq h index comparator right

theorem respects_not {p : Row → Bool} (hp : Respects p) : Respects fun row => !p row :=
  fun row row' h => congrArg (!·) (hp row row' h)

/-- Of further rows, those count that do not occur before. -/
theorem distinct_append (rows more : List Row) :
    distinct (rows ++ more) =
      distinct rows ++ (distinct more).filter fun row => !Row.occursIn rows row := by
  induction rows with
  | nil => simp [distinct, Row.occursIn]
  | cons first rows ih =>
    rw [List.cons_append, distinct_cons, distinct_cons, ih, List.filter_append, List.cons_append,
      List.filter_filter]
    refine congrArg _ (congrArg _ (List.filter_congr fun row _ => ?_))
    rw [occursIn_cons, Bool.not_or]

/-! ## Rows made of rows -/

/-- Entries that contribute nothing may be left out first. -/
theorem flatMap_filter_of_eq_nil {α β : Type} {p : α → Bool} {f : α → List β}
    (h : ∀ a, p a = false → f a = []) (l : List α) : (l.filter p).flatMap f = l.flatMap f := by
  induction l with
  | nil => rfl
  | cons a l ih =>
    cases ha : p a with
    | true => rw [List.filter_cons_of_pos ha, List.flatMap_cons, List.flatMap_cons, ih]
    | false =>
      rw [List.filter_cons_of_neg (by simp [ha]), List.flatMap_cons, h a ha, ih, List.nil_append]

/-- Repeats make nothing but repeats, if the rows made of a row occur among those made of any
row equal to it. -/
theorem distinct_flatMap_distinct {f : Row → List Row}
    (hf : ∀ row row', Row.Equal row row' → ∀ made ∈ f row, Row.occursIn (f row') made = true)
    (rows : List Row) : distinct ((distinct rows).flatMap f) = distinct (rows.flatMap f) := by
  induction rows with
  | nil => rfl
  | cons first rows ih =>
    have hnew := respects_not (respects_occursIn (f first))
    rw [distinct_cons, List.flatMap_cons, List.flatMap_cons, distinct_append, distinct_append, ← ih,
      ← distinct_filter hnew, ← distinct_filter hnew, List.filter_flatMap, List.filter_flatMap]
    -- Rows that are equal to the first make no rows that are new.
    rw [flatMap_filter_of_eq_nil]
    intro row hrow
    rw [List.filter_eq_nil_iff]
    intro made hmade
    have hequal : Row.Equal row first := by simpa using hrow
    simp [hf row first hequal made hmade]

/-- What is made of a row may have repeats of its own. -/
theorem distinct_flatMap_congr {f g : Row → List Row}
    (h : ∀ row, distinct (f row) = distinct (g row)) (rows : List Row) :
    distinct (rows.flatMap f) = distinct (rows.flatMap g) := by
  induction rows with
  | nil => rfl
  | cons row rows ih =>
    rw [List.flatMap_cons, List.flatMap_cons, distinct_append, distinct_append, h, ih,
      occursIn_congr (h row)]

/-- Repetitions may be left out before a map that keeps rows equal. -/
theorem distinct_map_distinct {f : Row → Row}
    (hf : ∀ row row', Row.Equal row row' → Row.Equal (f row) (f row')) (rows : List Row) :
    distinct ((distinct rows).map f) = distinct (rows.map f) := by
  rw [List.map_eq_flatMap, List.map_eq_flatMap]
  refine distinct_flatMap_distinct (fun row row' h made hmade => ?_) rows
  obtain rfl := List.mem_singleton.mp hmade
  exact Row.occursIn_iff.mpr ⟨f row', List.mem_singleton_self _,
    Row.equal_equivalence.symm (hf row row' h)⟩

/-- First occurrences have no repeats left. -/
theorem distinct_distinct (rows : List Row) : distinct (distinct rows) = distinct rows := by
  simpa using distinct_map_distinct (f := id) (fun _ _ h => h) rows

theorem distinct_distinct_append (rows more : List Row) :
    distinct (distinct rows ++ more) = distinct (rows ++ more) := by
  rw [distinct_append, distinct_append, distinct_distinct, occursIn_distinct]

theorem distinct_append_distinct (rows more : List Row) :
    distinct (rows ++ distinct more) = distinct (rows ++ more) := by
  rw [distinct_append, distinct_append, distinct_distinct]

/-! ## Operators -/

/-- Of the result of a set operator, those rows pass a test that it makes of the rows that do. -/
theorem filter_combineRows {p : Row → Bool} (hp : Respects p) (operator : SetOperator)
    (left right : List Row) :
    (combineRows operator left right).filter p =
      combineRows operator (left.filter p) (right.filter p) := by
  cases operator with
  | union => rw [combineRows, combineRows, ← distinct_filter hp, List.filter_append]
  | intersection =>
    rw [combineRows, combineRows, ← distinct_filter hp, List.filter_filter, List.filter_filter]
    congr 1
    apply List.filter_congr
    intro row _
    rw [occursIn_filter hp]
    cases p row <;> simp
  | difference =>
    rw [combineRows, combineRows, List.filter_filter, List.filter_filter]
    apply List.filter_congr
    intro row _
    rw [occursIn_filter hp]
    cases p row <;> simp

/-- Set operators do not depend on repetitions in their operands. -/
theorem distinct_combineRows {left left' right right' : List Row}
    (hleft : distinct left = distinct left') (hright : distinct right = distinct right')
    (operator : SetOperator) :
    distinct (combineRows operator left right) = distinct (combineRows operator left' right') := by
  cases operator with
  | union =>
    rw [combineRows, combineRows, distinct_distinct, distinct_distinct, distinct_append,
      distinct_append, hleft, hright, occursIn_congr hleft]
  | intersection =>
    rw [combineRows, combineRows, distinct_distinct, distinct_distinct,
      distinct_filter (respects_occursIn right), distinct_filter (respects_occursIn right'), hleft,
      occursIn_congr hright]
  | difference =>
    rw [combineRows, combineRows, distinct_filter (respects_not (respects_occursIn right)),
      distinct_filter (respects_not (respects_occursIn right')), hleft, occursIn_congr hright]

/-- The first occurrences in a product are made of the first occurrences on both sides. -/
theorem distinct_productRows (left right : List Row) :
    distinct (productRows left right) =
      distinct (productRows (distinct left) (distinct right)) := by
  have hinner : ∀ row : Row, distinct ((distinct right).map (row ++ ·)) =
      distinct (right.map (row ++ ·)) := fun row =>
    distinct_map_distinct (fun _ _ h => (Row.equal_equivalence.refl row).append h) _
  rw [productRows, productRows, distinct_flatMap_congr hinner]
  refine (distinct_flatMap_distinct (fun row row' hrow made hmade => ?_) left).symm
  obtain ⟨other, hother, rfl⟩ := List.mem_map.mp hmade
  refine Row.occursIn_iff.mpr ⟨row' ++ other, List.mem_map_of_mem hother, ?_⟩
  exact (Row.equal_equivalence.symm hrow).append (Row.equal_equivalence.refl other)

end RelationScript.Relation
