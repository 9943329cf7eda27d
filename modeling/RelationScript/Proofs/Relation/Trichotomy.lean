/-
# Trichotomy of selections

A cell of a row has the kind of its column, and a selection compares it with a cell of the same
kind, which a literal becomes or another column holds.  So every row of a well-formed relation
compares, it is smaller, equal or greater, and the six comparators choose among these three.

* `Comparator.mirror` : the comparator that holds with the sides exchanged;
* `Cell.compare?_swap`, `Cell.compare?_eq_some_eq_iff` : orders of cells;
* `Relation.WellFormed.exists_compare?` : cells that a selection compares are of one kind;
* `Relation.select_trichotomy` : what the selections under the six comparators keep.
-/
import RelationScript.Proofs.Relation.Lookup

namespace RelationScript

/-! ## Orders -/

namespace Comparator

/-- The comparator that says the same when both sides are exchanged. -/
def mirror : Comparator → Comparator
  | equal => equal
  | notEqual => notEqual
  | less => greater
  | lessEqual => greaterEqual
  | greater => less
  | greaterEqual => lessEqual

theorem holds_mirror (comparator : Comparator) (order : Ordering) :
    comparator.mirror.holds order.swap = comparator.holds order := by
  cases comparator <;> cases order <;> rfl

/-- Of two values that compare, exactly one of three things is the case. -/
theorem existsUnique_holds (order : Ordering) :
    ∃! comparator, comparator ∈ [equal, less, greater] ∧ comparator.holds order = true := by
  have hunique : ∀ c c' : Comparator, c ∈ [equal, less, greater] ∧ c.holds order = true →
      c' ∈ [equal, less, greater] ∧ c'.holds order = true → c' = c := by
    intro c c'
    cases order <;> cases c <;> cases c' <;> decide
  cases order with
  | lt => exact ⟨less, by decide, fun c => hunique less c (by decide)⟩
  | eq => exact ⟨equal, by decide, fun c => hunique equal c (by decide)⟩
  | gt => exact ⟨greater, by decide, fun c => hunique greater c (by decide)⟩

end Comparator

theorem Date.compare_swap (a b : Date) : b.compare a = (a.compare b).swap := by
  rw [Date.compare, Date.compare, Ordering.swap_then, Ordering.swap_then, ← Std.OrientedOrd.eq_swap,
    ← Std.OrientedOrd.eq_swap, ← Std.OrientedOrd.eq_swap]

/-- Dates compare as equal only if they are the same day. -/
theorem Date.compare_eq_eq_iff {a b : Date} : a.compare b = .eq ↔ a = b := by
  rw [Date.compare, Ordering.then_eq_eq, Ordering.then_eq_eq, compare_eq_iff_eq, compare_eq_iff_eq,
    compare_eq_iff_eq]
  constructor
  · rintro ⟨⟨hyear, hmonth⟩, hday⟩
    cases a
    cases b
    simp_all only
  · rintro rfl
    exact ⟨⟨rfl, rfl⟩, rfl⟩

namespace Cell

/-- Exchanging two cells exchanges smaller and greater. -/
theorem compare?_swap (a b : Cell) : b.compare? a = (a.compare? b).map Ordering.swap := by
  cases a <;> cases b <;> try rfl
  case number.number m n =>
    show some (n.compareValue m) = some (m.compareValue n).swap
    rw [Decimal.compareValue, Decimal.compareValue, ← Std.OrientedOrd.eq_swap]
  case text.text s t =>
    show some (compare t s) = some (compare s t).swap
    rw [← Std.OrientedOrd.eq_swap]
  case date.date d e =>
    show some (e.compare d) = some (d.compare e).swap
    rw [Date.compare_swap]

/-- Cells compare if they are of one kind. -/
theorem exists_compare? {a b : Cell} (h : a.kind = b.kind) :
    ∃ order, a.compare? b = some order := by
  cases a <;> cases b <;> simp [kind] at h <;> exact ⟨_, rfl⟩

/-- The cells that compare as equal are the equal ones. -/
theorem compare?_eq_some_eq_iff {a b : Cell} : a.compare? b = some .eq ↔ a.Equal b := by
  constructor
  · intro h
    cases a <;> cases b <;> simp only [compare?, Option.some.injEq, reduceCtorEq] at h
    case number.number m n =>
      rw [Decimal.compareValue_eq, compare_eq_iff_eq] at h
      exact .number h
    case text.text s t =>
      rw [compare_eq_iff_eq] at h
      exact h ▸ .text s
    case date.date d e =>
      rw [Date.compare_eq_eq_iff] at h
      exact h ▸ .date d
  · intro h
    cases h with
    | number h => rw [compare?, Decimal.compareValue_eq, compare_eq_iff_eq.mpr h]
    | text s => rw [compare?, compare_eq_iff_eq.mpr rfl]
    | date d => rw [compare?, Date.compare_eq_eq_iff.mpr rfl]

end Cell

/-! ## What is compared -/

namespace Relation

/-- A column on the right is resolved if the heading has it with the kind of the left one. -/
theorem resolve_column_eq_ok {heading : Heading} {left : Column} {name : String} {right : Side} :
    resolve heading left (.column name) = .ok right ↔ ∃ index column,
      heading.find name = .ok (index, column) ∧ column.kind = left.kind ∧
        right = .cellAt index := by
  rw [resolve, bind_eq_ok]
  constructor
  · rintro ⟨⟨index, column⟩, hfind, h⟩
    dsimp only at h
    by_cases hkind : column.kind = left.kind
    · rw [if_pos hkind] at h
      exact ⟨index, column, hfind, hkind, (Except.ok.inj h).symm⟩
    · rw [if_neg hkind] at h
      cases h
  · rintro ⟨index, column, hfind, hkind, rfl⟩
    exact ⟨(index, column), hfind, if_pos hkind⟩

/-- A literal is coerced to a cell of the kind that is asked for. -/
theorem kind_of_coerce {value : Literal} {kind : Kind} {cell : Cell}
    (h : coerce value kind = .ok cell) : cell.kind = kind := by
  cases value with
  | number n =>
    cases kind with
    | numeric =>
      obtain rfl := Except.ok.inj h
      rfl
    | string => cases h
    | date => cases h
  | text s =>
    cases kind with
    | numeric => cases h
    | string =>
      obtain rfl := Except.ok.inj h
      rfl
    | date =>
      rw [coerce] at h
      split at h
      · obtain rfl := Except.ok.inj h
        rfl
      · cases h

theorem resolve_literal_eq_ok {heading : Heading} {left : Column} {value : Literal} {right : Side} :
    resolve heading left (.literal value) = .ok right ↔
      ∃ cell, coerce value left.kind = .ok cell ∧ right = .constant cell := by
  rw [resolve]
  cases coerce value left.kind <;> simp [eq_comm]

theorem keeps_eq_holds {index : ℕ} {comparator : Comparator} {right : Side} {row : Row} {a b : Cell}
    {order : Ordering} (ha : row[index]? = some a) (hb : right.cell? row = some b)
    (horder : a.compare? b = some order) :
    keeps index comparator right row = comparator.holds order := by
  rw [keeps, ha, hb]
  show (a.compare? b).any comparator.holds = comparator.holds order
  rw [horder]
  rfl

/-- A selection compares cells of one kind in every row, and their order decides. -/
theorem WellFormed.exists_compare? {relation : Relation} (h : relation.WellFormed) {name : String}
    {comparand : Comparand} {index : ℕ} {left : Column} {right : Side}
    (hfind : relation.heading.find name = .ok (index, left))
    (hright : resolve relation.heading left comparand = .ok right) {row : Row}
    (hrow : row ∈ relation.rows) :
    ∃ a b order, row[index]? = some a ∧ right.cell? row = some b ∧ a.compare? b = some order ∧
      ∀ comparator, keeps index comparator right row = comparator.holds order := by
  obtain ⟨a, ha, hkind⟩ := h.exists_cell (Heading.find_eq_ok.mp hfind).2 hrow
  obtain ⟨b, hb, hkind'⟩ : ∃ b, right.cell? row = some b ∧ b.kind = left.kind := by
    cases comparand with
    | column other =>
      obtain ⟨index', column, hfind', hsame, rfl⟩ := resolve_column_eq_ok.mp hright
      obtain ⟨b, hb, hkind'⟩ := h.exists_cell (Heading.find_eq_ok.mp hfind').2 hrow
      exact ⟨b, hb, hkind'.trans hsame⟩
    | literal value =>
      obtain ⟨b, hb, rfl⟩ := resolve_literal_eq_ok.mp hright
      exact ⟨b, rfl, kind_of_coerce hb⟩
  obtain ⟨order, horder⟩ := Cell.exists_compare? (hkind.trans hkind'.symm)
  exact ⟨a, b, order, ha, hb, horder, fun comparator => keeps_eq_holds ha hb horder⟩

/-- A row is kept by the mirrored comparator with the two columns exchanged. -/
theorem keeps_mirror (index index' : ℕ) (comparator : Comparator) (row : Row) :
    keeps index' comparator.mirror (.cellAt index) row =
      keeps index comparator (.cellAt index') row := by
  rw [keeps, keeps, Side.cell?, Side.cell?]
  cases row[index]? with
  | none => cases row[index']? <;> rfl
  | some a =>
    cases row[index']? with
    | none => rfl
    | some b =>
      show (b.compare? a).any comparator.mirror.holds = (a.compare? b).any comparator.holds
      rw [Cell.compare?_swap]
      cases a.compare? b with
      | none => rfl
      | some order => exact comparator.holds_mirror order

/-! ## The six selections -/

/-- Once both sides are found, any description of the rows that are kept describes the selection. -/
theorem select_eq_ok_of_keeps {relation : Relation} {name : String} {comparator : Comparator}
    {comparand : Comparand} {index : ℕ} {left : Column} {right : Side}
    (hfind : relation.heading.find name = .ok (index, left))
    (hright : resolve relation.heading left comparand = .ok right) {kept : Row → Bool}
    (hkept : ∀ row ∈ relation.rows, keeps index comparator right row = kept row) :
    relation.select name comparator comparand =
      .ok ⟨relation.heading, relation.rows.filter kept⟩ := by
  rw [← List.filter_congr hkept]
  exact select_eq_ok.mpr ⟨index, left, right, hfind, hright, rfl⟩

/-- A comparator that means one or another of two keeps what one or the other keeps. -/
theorem WellFormed.select_eq_ok_of_holds_or {relation : Relation} (h : relation.WellFormed)
    {name : String} {comparand : Comparand} {index : ℕ} {left : Column} {right : Side}
    (hfind : relation.heading.find name = .ok (index, left))
    (hright : resolve relation.heading left comparand = .ok right)
    {comparator one another : Comparator}
    (hholds : ∀ order, comparator.holds order = (one.holds order || another.holds order)) :
    relation.select name comparator comparand = .ok ⟨relation.heading,
      relation.rows.filter fun row =>
        keeps index one right row || keeps index another right row⟩ := by
  apply select_eq_ok_of_keeps hfind hright
  intro row hrow
  obtain ⟨a, b, order, -, -, -, hkeeps⟩ := h.exists_compare? hfind hright hrow
  rw [hkeeps, hkeeps, hkeeps, hholds]

/-- Exchanging the columns and mirroring the comparator selects the same. -/
theorem select_mirror {relation result : Relation} {name other : String} {comparator : Comparator}
    (h : relation.select name comparator (.column other) = .ok result) :
    relation.select other comparator.mirror (.column name) = .ok result := by
  obtain ⟨index, left, right, hfind, hright, rfl⟩ := select_eq_ok.mp h
  obtain ⟨index', column, hfind', hkind, rfl⟩ := resolve_column_eq_ok.mp hright
  have hright' : resolve relation.heading column (.column name) = .ok (.cellAt index) :=
    resolve_column_eq_ok.mpr ⟨index, left, hfind, hkind.symm, rfl⟩
  apply select_eq_ok_of_keeps hfind' hright'
  intro row _
  exact keeps_mirror index index' comparator row

/-- How the six selections of a relation share out its rows, when they compare the same two sides:
`kept` says for each comparator which rows it keeps. -/
structure Trichotomy (relation : Relation) (name : String) (comparand : Comparand)
    (kept : Comparator → Row → Bool) : Prop where
  /-- All six succeed and leave the heading as it is. -/
  select : ∀ comparator, relation.select name comparator comparand =
    .ok ⟨relation.heading, relation.rows.filter (kept comparator)⟩
  /-- A row is kept by one of these, and by no other of them. -/
  existsUnique : ∀ row ∈ relation.rows,
    ∃! comparator, comparator ∈ [Comparator.equal, .less, .greater] ∧ kept comparator row = true
  /-- At most means smaller or equal. -/
  lessEqual : relation.select name .lessEqual comparand =
    .ok ⟨relation.heading, relation.rows.filter fun row => kept .less row || kept .equal row⟩
  /-- At least means greater or equal. -/
  greaterEqual : relation.select name .greaterEqual comparand =
    .ok ⟨relation.heading, relation.rows.filter fun row => kept .greater row || kept .equal row⟩
  /-- Different means smaller or greater. -/
  notEqual : relation.select name .notEqual comparand =
    .ok ⟨relation.heading, relation.rows.filter fun row => kept .less row || kept .greater row⟩
  /-- In every row the two sides compare, which decides what is kept, and equality is that of
  cells. -/
  compares : ∃ index left right, relation.heading.find name = .ok (index, left) ∧
    resolve relation.heading left comparand = .ok right ∧
    ∀ row ∈ relation.rows, ∃ a b order, row[index]? = some a ∧ right.cell? row = some b ∧
      a.compare? b = some order ∧ (kept .equal row = true ↔ a.Equal b) ∧
        ∀ comparator, kept comparator row = comparator.holds order
  /-- Two columns can be compared either way round. -/
  mirror : ∀ other, comparand = .column other → ∀ comparator,
    relation.select other comparator.mirror (.column name) =
      relation.select name comparator comparand

/-- **Selection is a trichotomy.**  Where one comparator selects from a well-formed relation, all
six do, and no row fails to compare.  A row is kept by exactly one of equality, smaller and greater;
each of the other three comparators keeps the rows that one or the other of two of these keeps. -/
theorem select_trichotomy {relation result : Relation} (h : relation.WellFormed) {name : String}
    {comparator : Comparator} {comparand : Comparand}
    (hselect : relation.select name comparator comparand = .ok result) :
    ∃ kept, Trichotomy relation name comparand kept := by
  obtain ⟨index, left, right, hfind, hright, -⟩ := select_eq_ok.mp hselect
  have hselects : ∀ c, relation.select name c comparand =
      .ok ⟨relation.heading, relation.rows.filter (keeps index c right)⟩ :=
    fun c => select_eq_ok_of_keeps hfind hright fun _ _ => rfl
  refine ⟨fun c => keeps index c right, hselects, ?_, ?_, ?_, ?_,
    ⟨index, left, right, hfind, hright, ?_⟩, ?_⟩
  · intro row hrow
    obtain ⟨a, b, order, -, -, -, hkeeps⟩ := h.exists_compare? hfind hright hrow
    simp only [hkeeps]
    exact Comparator.existsUnique_holds order
  · apply h.select_eq_ok_of_holds_or hfind hright
    intro order
    cases order <;> rfl
  · apply h.select_eq_ok_of_holds_or hfind hright
    intro order
    cases order <;> rfl
  · apply h.select_eq_ok_of_holds_or hfind hright
    intro order
    cases order <;> rfl
  · intro row hrow
    obtain ⟨a, b, order, ha, hb, horder, hkeeps⟩ := h.exists_compare? hfind hright hrow
    refine ⟨a, b, order, ha, hb, horder, ?_, hkeeps⟩
    show keeps index .equal right row = true ↔ a.Equal b
    rw [hkeeps, ← Cell.compare?_eq_some_eq_iff, horder]
    cases order <;> decide
  · rintro other rfl c
    rw [hselects c]
    exact select_mirror (hselects c)

/-- Three rows that compare in the three ways, equal numbers with different scales among them. -/
theorem select_trichotomy_of_columns :
    let relation : Relation := ⟨[⟨"x", .numeric⟩, ⟨"y", .numeric⟩],
      [[.number .zero, .number ⟨false, 15, 1, by decide, by decide⟩],
        [.number ⟨false, 150, 2, by decide, by decide⟩,
          .number ⟨false, 15, 1, by decide, by decide⟩],
        [.number .zero, .number ⟨true, 15, 1, by decide, by decide⟩]]⟩
    relation.WellFormed ∧
      relation.select "x" .notEqual (.column "y") = .ok ⟨[⟨"x", .numeric⟩, ⟨"y", .numeric⟩],
        [[.number .zero, .number ⟨false, 15, 1, by decide, by decide⟩],
          [.number .zero, .number ⟨true, 15, 1, by decide, by decide⟩]]⟩ ∧
      ∃ kept, Trichotomy relation "x" (.column "y") kept := by
  intro relation
  have h : relation.WellFormed := ⟨by decide, by decide⟩
  have hselect : relation.select "x" .notEqual (.column "y") =
      .ok ⟨[⟨"x", .numeric⟩, ⟨"y", .numeric⟩],
        [[.number .zero, .number ⟨false, 15, 1, by decide, by decide⟩],
          [.number .zero, .number ⟨true, 15, 1, by decide, by decide⟩]]⟩ := by decide
  exact ⟨h, hselect, select_trichotomy h hselect⟩

end Relation

end RelationScript
