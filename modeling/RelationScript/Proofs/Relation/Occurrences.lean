/-
# Which rows set operators keep

Set operators drop rows of their operands and keep the others as they are stored and in order.
Which occurrence of a row stays is decided by what stands before it and by the rows of the other
operand.

* `SubsequenceAt` : the rows at the places that are chosen by the rows before them;
* `subsequenceAt_distinct`, `subsequenceAt_filter` : first occurrences, and rows that pass a test;
* `combine_eq_ok_iff_subsequenceAt` : the rows of a union, an intersection and a difference.
-/
import RelationScript.Proofs.Relation.Distinct

namespace RelationScript.Relation

/-! ## Rows at chosen places -/

/-- The rows of `part` are those of `whole` at certain places, in order: a place counts if the rows
before it and the row that stands there are `chosen`. -/
def SubsequenceAt (chosen : List Row → Row → Prop) (whole part : List Row) : Prop :=
  ∃ indices : List ℕ, indices.Pairwise (· < ·) ∧
    (∀ i, i ∈ indices ↔ ∃ row, whole[i]? = some row ∧ chosen (whole.take i) row) ∧
    part.map some = indices.map (whole[·]?)

variable {chosen : List Row → Row → Prop} {whole part part' : List Row}

/-- There is one such part. -/
theorem SubsequenceAt.unique (h : SubsequenceAt chosen whole part)
    (h' : SubsequenceAt chosen whole part') : part = part' := by
  obtain ⟨indices, hsorted, hmem, hpart⟩ := h
  obtain ⟨indices', hsorted', hmem', hpart'⟩ := h'
  have hindices : indices = indices' := by
    apply hsorted.eq_of_mem_iff hsorted'
    intro i
    rw [hmem, hmem']
  apply List.map_injective_iff.mpr (Option.some_injective Row)
  rw [hpart, hpart', hindices]

/-- A choice of rows from a list leaves one subsequence only. -/
theorem SubsequenceAt.iff_eq (h : SubsequenceAt chosen whole part) :
    SubsequenceAt chosen whole part' ↔ part' = part := by
  constructor
  · intro h'
    exact h'.unique h
  · rintro rfl
    exact h

/-- The places in a list and one more row. -/
theorem mem_concat_iff {rows : List Row} {row : Row} {i : ℕ} :
    (∃ other, (rows ++ [row])[i]? = some other ∧ chosen ((rows ++ [row]).take i) other) ↔
      (∃ other, rows[i]? = some other ∧ chosen (rows.take i) other) ∨
        i = rows.length ∧ chosen rows row := by
  rcases lt_trichotomy i rows.length with hlt | rfl | hgt
  · rw [List.getElem?_append_left hlt, List.take_append_of_le_length hlt.le]
    simp [hlt.ne]
  · simp
  · have hend : (rows ++ [row]).length ≤ i := by
      rw [List.length_append, List.length_singleton]
      omega
    rw [List.getElem?_eq_none hend, List.getElem?_eq_none hgt.le]
    simp [hgt.ne']

theorem map_getElem?_concat {rows : List Row} (row : Row) {indices : List ℕ}
    (h : ∀ i ∈ indices, i < rows.length) :
    indices.map ((rows ++ [row])[·]?) = indices.map (rows[·]?) :=
  List.map_congr_left fun i hi => List.getElem?_append_left (h i hi)

/-- One more row is one more place, if it is chosen after the others. -/
theorem SubsequenceAt.concat {rows : List Row} (h : SubsequenceAt chosen rows part) {row : Row}
    {last : List Row} (hlast : chosen rows row ∧ last = [row] ∨ ¬ chosen rows row ∧ last = []) :
    SubsequenceAt chosen (rows ++ [row]) (part ++ last) := by
  obtain ⟨indices, hsorted, hmem, hpart⟩ := h
  have hbound : ∀ i ∈ indices, i < rows.length := by
    intro i hi
    obtain ⟨other, hother, -⟩ := (hmem i).mp hi
    exact (List.getElem?_eq_some_iff.mp hother).1
  rcases hlast with ⟨hchosen, rfl⟩ | ⟨hchosen, rfl⟩
  · refine ⟨indices ++ [rows.length], ?_, ?_, ?_⟩
    · rw [List.pairwise_append]
      refine ⟨hsorted, List.pairwise_singleton _ _, ?_⟩
      intro i hi j hj
      rw [List.mem_singleton.mp hj]
      exact hbound i hi
    · intro i
      rw [List.mem_append, List.mem_singleton, mem_concat_iff, hmem]
      simp [hchosen]
    · rw [List.map_append, List.map_append, map_getElem?_concat row hbound, hpart]
      simp
  · refine ⟨indices, hsorted, ?_, ?_⟩
    · intro i
      rw [mem_concat_iff, hmem]
      simp [hchosen]
    · rw [List.append_nil, map_getElem?_concat row hbound, hpart]

/-- A function that decides on each row when it comes, by the rows before it, keeps a part. -/
theorem subsequenceAt_of_concat {f : List Row → List Row} (hnil : f [] = [])
    (hconcat : ∀ rows row, ∃ last, f (rows ++ [row]) = f rows ++ last ∧
      (chosen rows row ∧ last = [row] ∨ ¬ chosen rows row ∧ last = []))
    (rows : List Row) : SubsequenceAt chosen rows (f rows) := by
  induction rows using List.reverseRecOn with
  | nil =>
    rw [hnil]
    exact ⟨[], List.Pairwise.nil, by simp, rfl⟩
  | append_singleton rows row ih =>
    obtain ⟨last, hf, hlast⟩ := hconcat rows row
    rw [hf]
    exact ih.concat hlast

/-! ## First occurrences and tests -/

/-- Rows that pass a test stay wherever they stand. -/
theorem subsequenceAt_filter (p : Row → Bool) (rows : List Row) :
    SubsequenceAt (fun _ row => p row = true) rows (rows.filter p) := by
  apply subsequenceAt_of_concat rfl
  intro rows row
  refine ⟨[row].filter p, List.filter_append .., ?_⟩
  by_cases hrow : p row = true
  · left
    exact ⟨hrow, List.filter_cons_of_pos hrow⟩
  · right
    exact ⟨hrow, List.filter_cons_of_neg hrow⟩

/-- Of the rows that pass a test, those stay that no row before equals. -/
theorem subsequenceAt_distinct {p : Row → Bool} (hp : Respects p) (rows : List Row) :
    SubsequenceAt (fun before row => p row = true ∧ ∀ other ∈ before, ¬ Row.Equal other row) rows
      (distinct (rows.filter p)) := by
  apply subsequenceAt_of_concat rfl
  intro rows row
  refine ⟨_, by rw [List.filter_append, distinct_append], ?_⟩
  by_cases hrow : p row = true
  · have hoccurs : Row.occursIn (rows.filter p) row = true ↔ ∃ other ∈ rows, Row.Equal other row := by
      rw [occursIn_filter hp, hrow, Bool.true_and, Row.occursIn_iff]
    rw [List.filter_cons_of_pos hrow, List.filter_nil]
    by_cases hearlier : ∃ other ∈ rows, Row.Equal other row
    · right
      refine ⟨?_, ?_⟩
      · rintro ⟨-, hnew⟩
        obtain ⟨other, hother, hequal⟩ := hearlier
        exact hnew other hother hequal
      · simp [distinct, hoccurs.mpr hearlier]
    · left
      refine ⟨⟨hrow, ?_⟩, ?_⟩
      · intro other hother hequal
        exact hearlier ⟨other, hother, hequal⟩
      · simp [distinct, mt hoccurs.mp hearlier]
  · right
    refine ⟨fun h => hrow h.1, ?_⟩
    rw [List.filter_cons_of_neg hrow]
    rfl

/-! ## Set operators -/

/-- A heading is made up of its names and its kinds. -/
theorem zipWith_names_kinds (heading : Heading) :
    List.zipWith Column.mk heading.names heading.kinds = heading := by
  induction heading with
  | nil => rfl
  | cons column heading ih => exact congrArg (column :: ·) ih

/-- Headings are equal if their names and their kinds are. -/
theorem heading_eq_iff {heading heading' : Heading} :
    heading = heading' ↔ heading.names = heading'.names ∧ heading.kinds = heading'.kinds := by
  constructor
  · rintro rfl
    exact ⟨rfl, rfl⟩
  · rintro ⟨hnames, hkinds⟩
    rw [← zipWith_names_kinds heading, hnames, hkinds, zipWith_names_kinds]

theorem subsequenceAt_union (left right : List Row) :
    SubsequenceAt (fun before row => ∀ other ∈ before, ¬ Row.Equal other row) (left ++ right)
      (combineRows .union left right) := by
  have h := subsequenceAt_distinct (p := fun _ => true) (fun _ _ _ => rfl) (left ++ right)
  simpa [combineRows] using h

theorem subsequenceAt_intersection (left right : List Row) :
    SubsequenceAt (fun before row => (∃ other ∈ right, Row.Equal other row) ∧
      ∀ other ∈ before, ¬ Row.Equal other row) left (combineRows .intersection left right) := by
  have h := subsequenceAt_distinct (respects_occursIn right) left
  simpa [combineRows, Row.occursIn_iff] using h

/-- A difference keeps each row on the left that does not occur on the right. -/
theorem subsequenceAt_difference (left right : List Row) :
    SubsequenceAt (fun _ row => ∀ other ∈ right, ¬ Row.Equal other row) left
      (combineRows .difference left right) := by
  have h := subsequenceAt_filter (fun row => !Row.occursIn right row) left
  have hiff : ∀ row, (!Row.occursIn right row) = true ↔ ∀ other ∈ right, ¬ Row.Equal other row := by
    intro row
    rw [Bool.not_eq_true', ← Bool.not_eq_true, Row.occursIn_iff]
    simp
  simpa only [hiff, combineRows] using h

/-- A set operator that keeps a chosen subsequence succeeds just on equal headings, with this
subsequence for its rows. -/
theorem combine_eq_ok_iff_of_subsequenceAt {operator : SetOperator} {a b c : Relation}
    {chosen : List Row → Row → Prop} {whole : List Row}
    (h : SubsequenceAt chosen whole (combineRows operator a.rows b.rows)) :
    a.combine operator b = .ok c ↔
      a.heading = b.heading ∧ c.heading = a.heading ∧ SubsequenceAt chosen whole c.rows := by
  rw [combine_eq_ok, h.iff_eq, Relation.mk.injEq]

/-- **Set operations, exactly.**  A set operator fails just on headings that differ, in a name, in a
kind or in the order of the columns, and otherwise keeps the heading.  A union has the first
occurrence of each row in the rows of the left operand and then of the right one; an intersection
has the first occurrence of each row of the left operand that equals a row of the right one; a
difference has every row of the left operand that equals no row of the right one. -/
theorem combine_eq_ok_iff_subsequenceAt (a b c : Relation) :
    (∀ operator, (∃ result, a.combine operator b = .ok result) ↔
      a.heading.names = b.heading.names ∧ a.heading.kinds = b.heading.kinds) ∧
    (∀ operator fault, a.combine operator b = .error fault ↔
      (a.heading.names ≠ b.heading.names ∨ a.heading.kinds ≠ b.heading.kinds) ∧
        fault = .headingsDiffer operator) ∧
    (a.combine .union b = .ok c ↔ a.heading = b.heading ∧ c.heading = a.heading ∧
      SubsequenceAt (fun before row => ∀ other ∈ before, ¬ Row.Equal other row)
        (a.rows ++ b.rows) c.rows) ∧
    (a.combine .intersection b = .ok c ↔ a.heading = b.heading ∧ c.heading = a.heading ∧
      SubsequenceAt (fun before row => (∃ other ∈ b.rows, Row.Equal other row) ∧
        ∀ other ∈ before, ¬ Row.Equal other row) a.rows c.rows) ∧
    (a.combine .difference b = .ok c ↔ a.heading = b.heading ∧ c.heading = a.heading ∧
      SubsequenceAt (fun _ row => ∀ other ∈ b.rows, ¬ Row.Equal other row) a.rows c.rows) := by
  refine ⟨?_, ?_, ?_, ?_, ?_⟩
  · intro operator
    rw [← heading_eq_iff]
    simp only [combine_eq_ok, exists_and_left, exists_eq, and_true]
  · intro operator fault
    rw [← not_and_or, ← heading_eq_iff]
    exact combine_eq_error
  · exact combine_eq_ok_iff_of_subsequenceAt (subsequenceAt_union a.rows b.rows)
  · exact combine_eq_ok_iff_of_subsequenceAt (subsequenceAt_intersection a.rows b.rows)
  · exact combine_eq_ok_iff_of_subsequenceAt (subsequenceAt_difference a.rows b.rows)

/-- Of equal numbers that are written differently the first one stays. -/
example : combineRows .union [[.number ⟨false, 150, 2, by decide, by decide⟩]]
    [[.number ⟨false, 15, 1, by decide, by decide⟩], [.number .zero]] =
      [[.number ⟨false, 150, 2, by decide, by decide⟩], [.number .zero]] := by decide

end RelationScript.Relation
