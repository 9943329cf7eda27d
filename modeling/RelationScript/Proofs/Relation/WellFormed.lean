/-
# Well-formed relations

A relation is well-formed exactly if the checking constructor accepts it.  The operators build
their results without it, and keep relations well-formed each for its own reason: set operators
and selections take rows over, products join the kinds of two rows as they join the headings,
and projections pick from rows and headings at the same positions.

* `build_eq_ok` : what the checking constructor accepts;
* `combine_eq_ok`, `product_eq_ok`, `project_eq_ok`, `select_eq_ok` : when an operator has a
  result, and which;
* `WellFormed.combine`, … : the result is well-formed.
-/
import RelationScript.Proofs.Outcome
import RelationScript.Relation.Product
import RelationScript.Relation.Selection

namespace RelationScript

/-! ## The checking constructor -/

namespace Heading

/-- No name is repeated if names differ among each other and from those seen before. -/
theorem repeatedAfter?_eq_none (seen names : List String) :
    repeatedAfter? seen names = none ↔ names.Nodup ∧ ∀ name ∈ names, name ∉ seen := by
  induction names generalizing seen with
  | nil => simp [repeatedAfter?]
  | cons name names ih =>
    rw [repeatedAfter?]
    by_cases hseen : name ∈ seen
    · simp [hseen]
    · rw [if_neg hseen, ih, List.nodup_cons, List.forall_mem_cons]
      simp only [List.mem_cons, not_or]
      constructor
      · rintro ⟨hnodup, hnew⟩
        exact ⟨⟨fun hmem => (hnew name hmem).1 rfl, hnodup⟩, hseen, fun n hn => (hnew n hn).2⟩
      · rintro ⟨⟨hname, hnodup⟩, -, hnew⟩
        exact ⟨hnodup, fun n hn => ⟨fun h => hname (h ▸ hn), hnew n hn⟩⟩

theorem repeated?_eq_none {heading : Heading} :
    heading.repeated? = none ↔ heading.names.Nodup := by
  simp [repeated?, repeatedAfter?_eq_none]

/-- A heading passes its check exactly if its names are distinct. -/
theorem check_eq_ok {heading checked : Heading} :
    heading.check = .ok checked ↔ heading.names.Nodup ∧ checked = heading := by
  rw [← repeated?_eq_none, check]
  cases heading.repeated? <;> simp [eq_comm]

/-- It fails on the first name that an earlier column has already. -/
theorem check_eq_error {heading : Heading} {fault : AlgebraFault} :
    heading.check = .error fault ↔
      ∃ name, heading.repeated? = some name ∧ fault = .repeatedColumn name := by
  rw [check]
  cases heading.repeated? <;> simp [eq_comm]

/-- The first repeated name is that before which none is repeated. -/
theorem repeatedAfter?_eq_some {seen names : List String} {name : String} :
    repeatedAfter? seen names = some name ↔ ∃ before after, names = before ++ name :: after ∧
      (name ∈ seen ∨ name ∈ before) ∧ repeatedAfter? seen before = none := by
  induction names generalizing seen with
  | nil => simp [repeatedAfter?]
  | cons first names ih =>
    rw [repeatedAfter?]
    by_cases hseen : first ∈ seen
    · rw [if_pos hseen, Option.some.injEq]
      constructor
      · rintro rfl
        exact ⟨[], names, rfl, Or.inl hseen, rfl⟩
      · rintro ⟨before, after, hnames, -, hbefore⟩
        cases before with
        | nil => exact (List.cons.inj hnames).1
        | cons other before =>
          obtain ⟨rfl, -⟩ := List.cons.inj hnames
          rw [repeatedAfter?, if_pos hseen] at hbefore
          cases hbefore
    · rw [if_neg hseen, ih]
      constructor
      · rintro ⟨before, after, rfl, hname, hbefore⟩
        refine ⟨first :: before, after, rfl, ?_, ?_⟩
        · rwa [List.mem_cons, or_left_comm, ← or_assoc, ← List.mem_cons]
        · rwa [repeatedAfter?, if_neg hseen]
      · rintro ⟨before, after, hnames, hname, hbefore⟩
        cases before with
        | nil =>
          obtain ⟨rfl, -⟩ := List.cons.inj hnames
          exact absurd (hname.resolve_right List.not_mem_nil) hseen
        | cons other before =>
          obtain ⟨rfl, rfl⟩ := List.cons.inj hnames
          rw [repeatedAfter?, if_neg hseen] at hbefore
          rw [List.mem_cons, or_left_comm, ← or_assoc, ← List.mem_cons] at hname
          exact ⟨before, after, rfl, hname, hbefore⟩

/-- The first name that is repeated stands behind distinct names, of which it is one. -/
theorem repeated?_eq_some {heading : Heading} {name : String} :
    heading.repeated? = some name ↔ ∃ before after, heading.names = before ++ name :: after ∧
      name ∈ before ∧ before.Nodup := by
  rw [repeated?, repeatedAfter?_eq_some]
  simp [repeatedAfter?_eq_none]

end Heading

namespace Relation

/-- Rows are compared with headings by length and cell by cell. -/
theorem kinds_eq_iff {heading : Heading} {row : Row} :
    Row.kinds row = heading.kinds ↔
      row.length = heading.length ∧ ∀ pair ∈ heading.zip row, pair.2.kind = pair.1.kind := by
  induction heading generalizing row with
  | nil => simp [Row.kinds, Heading.kinds]
  | cons column heading ih =>
    cases row with
    | nil => simp [Row.kinds, Heading.kinds]
    | cons cell row =>
      simp only [Row.kinds, Heading.kinds, List.map_cons, List.cons.injEq] at ih ⊢
      rw [ih, List.zip_cons_cons, List.forall_mem_cons, List.length_cons, List.length_cons,
        Nat.succ_inj]
      exact and_left_comm

/-- A row passes if it has the kinds of the heading, whatever its index. -/
theorem checkRow_eq_ok {heading : Heading} {index : Nat} {row : Row} :
    checkRow heading index row = .ok () ↔ Row.kinds row = heading.kinds := by
  rw [kinds_eq_iff, checkRow]
  by_cases hlength : row.length = heading.length
  · rw [if_neg (not_not_intro hlength)]
    split
    next column cell hfind =>
      have hkind := List.find?_some hfind
      have hmem := List.mem_of_find?_eq_some hfind
      simp only [reduceCtorEq, false_iff, not_and]
      intro _ hall
      simp [hall (column, cell) hmem] at hkind
    next hfind =>
      rw [List.find?_eq_none] at hfind
      simpa [hlength] using hfind
  · simp [hlength]

/-- Rows pass if each of them does. -/
theorem checkRows_eq_ok {heading : Heading} {index : Nat} {rows : List Row} :
    checkRows heading index rows = .ok () ↔ ∀ row ∈ rows, Row.kinds row = heading.kinds := by
  induction rows generalizing index with
  | nil => simp [checkRows]
  | cons row rows ih =>
    rw [checkRows, bind_eq_ok, List.forall_mem_cons]
    constructor
    · rintro ⟨_, hrow, hrows⟩
      exact ⟨checkRow_eq_ok.mp hrow, ih.mp hrows⟩
    · rintro ⟨hrow, hrows⟩
      exact ⟨(), checkRow_eq_ok.mpr hrow, ih.mpr hrows⟩

/-- The checking constructor accepts the well-formed relations as they are. -/
theorem build_eq_ok {heading : Heading} {rows : List Row} {relation : Relation} :
    build heading rows = .ok relation ↔ relation = ⟨heading, rows⟩ ∧ relation.WellFormed := by
  simp only [build, bind_eq_ok, Heading.check_eq_ok]
  constructor
  · rintro ⟨_, ⟨hnodup, rfl⟩, ⟨⟩, hrows, hrelation⟩
    obtain rfl := Except.ok.inj hrelation
    exact ⟨rfl, hnodup, checkRows_eq_ok.mp hrows⟩
  · rintro ⟨rfl, hnodup, hkinds⟩
    exact ⟨heading, ⟨hnodup, rfl⟩, (), checkRows_eq_ok.mpr hkinds, rfl⟩

/-- In a well-formed relation every row has as many cells as there are columns. -/
theorem WellFormed.length_eq {relation : Relation} (h : relation.WellFormed) {row : Row}
    (hrow : row ∈ relation.rows) : row.length = relation.heading.length :=
  (kinds_eq_iff.mp (h.kinds row hrow)).1

/-- In a well-formed relation the cells of a column are of its kind. -/
theorem WellFormed.exists_cell {relation : Relation} (h : relation.WellFormed) {index : Nat}
    {column : Column} (hcolumn : relation.heading[index]? = some column) {row : Row}
    (hrow : row ∈ relation.rows) : ∃ cell, row[index]? = some cell ∧ cell.kind = column.kind := by
  have hkinds := congrArg (·[index]?) (h.kinds row hrow)
  simpa [Row.kinds, Heading.kinds, hcolumn] using hkinds

/-! ## Set operators -/

theorem mem_of_mem_distinct {rows : List Row} {row : Row} (h : row ∈ distinct rows) :
    row ∈ rows := by
  induction rows with
  | nil => exact h
  | cons first rows ih =>
    rcases List.mem_cons.mp h with rfl | h
    · exact List.mem_cons_self
    · exact List.mem_cons_of_mem _ (ih (List.mem_filter.mp h).1)

theorem mem_or_mem_of_mem_combineRows {operator : SetOperator} {left right : List Row} {row : Row}
    (h : row ∈ combineRows operator left right) : row ∈ left ∨ row ∈ right := by
  cases operator with
  | union => exact List.mem_append.mp (mem_of_mem_distinct h)
  | intersection => exact Or.inl (List.mem_filter.mp (mem_of_mem_distinct h)).1
  | difference => exact Or.inl (List.mem_filter.mp h).1

theorem combine_eq_ok {operator : SetOperator} {a b c : Relation} :
    a.combine operator b = .ok c ↔
      a.heading = b.heading ∧ c = ⟨a.heading, combineRows operator a.rows b.rows⟩ := by
  rw [combine]
  by_cases h : a.heading = b.heading <;> simp [h, eq_comm]

theorem combine_mk (operator : SetOperator) (heading : Heading) (left right : List Row) :
    combine operator ⟨heading, left⟩ ⟨heading, right⟩ =
      .ok ⟨heading, combineRows operator left right⟩ :=
  combine_eq_ok.mpr ⟨rfl, rfl⟩

/-- A set operator fails only on headings that differ. -/
theorem combine_eq_error {operator : SetOperator} {a b : Relation} {fault : AlgebraFault} :
    a.combine operator b = .error fault ↔
      a.heading ≠ b.heading ∧ fault = .headingsDiffer operator := by
  rw [combine]
  by_cases h : a.heading = b.heading <;> simp [h, eq_comm]

/-- Set operators keep relations well-formed. -/
theorem WellFormed.combine {operator : SetOperator} {a b c : Relation} (ha : a.WellFormed)
    (hb : b.WellFormed) (h : a.combine operator b = .ok c) : c.WellFormed := by
  obtain ⟨hheading, rfl⟩ := combine_eq_ok.mp h
  refine ⟨ha.nodup, fun row hrow => ?_⟩
  rcases mem_or_mem_of_mem_combineRows hrow with hrow | hrow
  · exact ha.kinds row hrow
  · rw [hheading]
    exact hb.kinds row hrow

/-! ## Products -/

/-- A product exists if its names are distinct, and it pairs all rows. -/
theorem product_eq_ok {a b c : Relation} {leftLabel rightLabel : String} :
    a.product b leftLabel rightLabel = .ok c ↔
      (productHeading a.heading b.heading leftLabel rightLabel).names.Nodup ∧
        c = ⟨productHeading a.heading b.heading leftLabel rightLabel,
          productRows a.rows b.rows⟩ := by
  simp only [product, bind_eq_ok, Heading.check_eq_ok]
  constructor
  · rintro ⟨_, ⟨hnodup, rfl⟩, h⟩
    exact ⟨hnodup, (Except.ok.inj h).symm⟩
  · rintro ⟨hnodup, rfl⟩
    exact ⟨_, ⟨hnodup, rfl⟩, rfl⟩

/-- A product fails only on a name that is repeated in its heading. -/
theorem product_eq_error {a b : Relation} {leftLabel rightLabel : String} {fault : AlgebraFault} :
    a.product b leftLabel rightLabel = .error fault ↔ ∃ name,
      (productHeading a.heading b.heading leftLabel rightLabel).repeated? = some name ∧
        fault = .repeatedColumn name := by
  rw [product, bind_eq_error, Heading.check_eq_error]
  simp [pure, Except.pure]

/-- A round changes nothing but whether slots are qualified. -/
theorem map_round {α : Type} {f : Slot → α}
    (hf : ∀ slot, f ⟨slot.label, slot.column, true⟩ = f slot) (slots : List Slot) :
    (Slot.round slots).map f = slots.map f := by
  rw [Slot.round, List.map_map]
  refine List.map_congr_left fun slot _ => ?_
  rw [Function.comp]
  split
  · exact hf slot
  · rfl

/-- What does not look at the mark of a slot is not changed by settling names. -/
theorem map_settle {α : Type} {f : Slot → α}
    (hf : ∀ slot, f ⟨slot.label, slot.column, true⟩ = f slot) (fuel : Nat) (slots : List Slot) :
    (Slot.settle fuel slots).map f = slots.map f := by
  induction fuel generalizing slots with
  | zero => rfl
  | succ fuel ih =>
    rw [Slot.settle]
    split
    · rfl
    · rw [ih, map_round hf]

/-- Qualification changes names only. -/
theorem kinds_productHeading (left right : Heading) (leftLabel rightLabel : String) :
    (productHeading left right leftLabel rightLabel).kinds = left.kinds ++ right.kinds := by
  rw [productHeading, Heading.kinds, List.map_map, map_settle fun _ => rfl]
  simp [Slot.ofHeading, Heading.kinds, Slot.toColumn, Function.comp_def]

/-- Products keep relations well-formed, under whatever labels they exist. -/
theorem WellFormed.product {a b c : Relation} {leftLabel rightLabel : String} (ha : a.WellFormed)
    (hb : b.WellFormed) (h : a.product b leftLabel rightLabel = .ok c) : c.WellFormed := by
  obtain ⟨hnodup, rfl⟩ := product_eq_ok.mp h
  refine ⟨hnodup, fun row hrow => ?_⟩
  obtain ⟨left, hleft, hrow⟩ := List.mem_flatMap.mp hrow
  obtain ⟨right, hright, rfl⟩ := List.mem_map.mp hrow
  rw [kinds_productHeading, ← ha.kinds left hleft, ← hb.kinds right hright]
  exact List.map_append

/-! ## Projections and selections -/

theorem map_pick {α β : Type} (f : α → β) (indices : List Nat) (entries : List α) :
    (pick indices entries).map f = pick indices (entries.map f) := by
  simp [pick, List.map_filterMap]

/-- The cells at the given positions of each row; with `dedup`, only the first occurrence of each
row of these. -/
def projectRows (dedup : Bool) (indices : List ℕ) (rows : List Row) : List Row :=
  if dedup then distinct (rows.map (pick indices)) else rows.map (pick indices)

/-- A projection finds its columns, under distinct names, and picks them from each row. -/
theorem project_eq_ok {a b : Relation} {names : List String} {dedup : Bool} :
    a.project names dedup = .ok b ↔ ∃ indices, a.heading.locateAll names = .ok indices ∧
      (Heading.names (pick indices a.heading)).Nodup ∧
        b = ⟨pick indices a.heading, projectRows dedup indices a.rows⟩ := by
  simp only [project, bind_eq_ok, Heading.check_eq_ok]
  constructor
  · rintro ⟨indices, hindices, _, ⟨hnodup, rfl⟩, h⟩
    exact ⟨indices, hindices, hnodup, (Except.ok.inj h).symm⟩
  · rintro ⟨indices, hindices, hnodup, rfl⟩
    exact ⟨indices, hindices, _, ⟨hnodup, rfl⟩, rfl⟩

/-- Projections keep relations well-formed. -/
theorem WellFormed.project {a b : Relation} {names : List String} {dedup : Bool}
    (ha : a.WellFormed) (h : a.project names dedup = .ok b) : b.WellFormed := by
  obtain ⟨indices, -, hnodup, rfl⟩ := project_eq_ok.mp h
  refine ⟨hnodup, fun row hrow => ?_⟩
  have hpicked : row ∈ a.rows.map (pick indices) := by
    cases dedup
    · exact hrow
    · exact mem_of_mem_distinct hrow
  -- Columns and cells are picked at the same positions.
  obtain ⟨whole, hwhole, rfl⟩ := List.mem_map.mp hpicked
  rw [Row.kinds, Heading.kinds, map_pick, map_pick]
  exact congrArg (pick indices) (ha.kinds whole hwhole)

/-- A selection resolves both sides of its condition, and keeps the rows that meet it. -/
theorem select_eq_ok {a b : Relation} {name : String} {comparator : Comparator}
    {comparand : Comparand} :
    a.select name comparator comparand = .ok b ↔ ∃ index left right,
      a.heading.find name = .ok (index, left) ∧ resolve a.heading left comparand = .ok right ∧
        b = ⟨a.heading, a.rows.filter (keeps index comparator right)⟩ := by
  simp only [select, bind_eq_ok]
  constructor
  · rintro ⟨⟨index, left⟩, hfind, right, hright, h⟩
    exact ⟨index, left, right, hfind, hright, (Except.ok.inj h).symm⟩
  · rintro ⟨index, left, right, hfind, hright, rfl⟩
    exact ⟨(index, left), hfind, right, hright, rfl⟩

/-- Selections keep relations well-formed. -/
theorem WellFormed.select {a b : Relation} {name : String} {comparator : Comparator}
    {comparand : Comparand} (ha : a.WellFormed)
    (h : a.select name comparator comparand = .ok b) : b.WellFormed := by
  obtain ⟨index, left, right, -, -, rfl⟩ := select_eq_ok.mp h
  exact ⟨ha.nodup, fun row hrow => ha.kinds row (List.mem_filter.mp hrow).1⟩

end Relation

end RelationScript
