/-
# Which columns a product qualifies

A product must qualify the columns whose names both sides have, then those whose names the qualified
ones have taken, and so on.  The rounds of qualification find this least set of columns and nothing
else, whatever the labels are, since they treat columns of one name alike: a round is a step from
the set of names that it has qualified to the next one.

* `Sided`, `NamesTaken` : columns of two operands, and the sets of them that may be qualified;
* `Slot.round_marked` : a round as a step between sets of names;
* `Slot.mem_of_nextMarks`, `Slot.marks_of_settled` : no column is qualified needlessly, no clash is
  missed;
* `Relation.getElem?_productRows` : the rows of a product;
* `Relation.exists_leastQualification` : the names, the rows and the faults of products.
-/
import RelationScript.Proofs.Relation.Qualification

namespace RelationScript

/-! ## Columns of two sides -/

/-- A column of the left or of the right operand of a product. -/
inductive Sided where
  | ofLeft (column : Column)
  | ofRight (column : Column)
  deriving DecidableEq

namespace Sided

/-- The column itself. -/
def column : Sided → Column
  | ofLeft column => column
  | ofRight column => column

/-- Whether it is a column of the left operand. -/
def isLeft : Sided → Bool
  | ofLeft _ => true
  | ofRight _ => false

/-- The name that the column has in its operand. -/
def name (x : Sided) : String :=
  x.column.name

/-- The label of its side, of the labels for the left and for the right one. -/
def label (labels : String × String) (x : Sided) : String :=
  if x.isLeft then labels.1 else labels.2

/-- What the column is called once it is qualified. -/
def newName (labels : String × String) (x : Sided) : String :=
  x.label labels ++ "." ++ x.name

/-- The column of the product, qualified or as it was. -/
def toColumn (labels : String × String) (qualified : Sided → Bool) (x : Sided) : Column :=
  if qualified x then ⟨x.newName labels, x.column.kind⟩ else x.column

/-- The columns of both operands, those of the left one first. -/
def all (left right : Heading) : List Sided :=
  left.map ofLeft ++ right.map ofRight

variable {left right : Heading}

theorem mem_all_ofLeft {column : Column} : ofLeft column ∈ all left right ↔ column ∈ left := by
  simp [all]

theorem mem_all_ofRight {column : Column} : ofRight column ∈ all left right ↔ column ∈ right := by
  simp [all]

/-- The sides tell equal columns of both operands apart. -/
theorem nodup_all (hleft : left.names.Nodup) (hright : right.names.Nodup) :
    (all left right).Nodup := by
  rw [all, List.nodup_append]
  refine ⟨(hleft.of_map _).map ?_, (hright.of_map _).map ?_, ?_⟩
  · intro x y h
    exact ofLeft.inj h
  · intro x y h
    exact ofRight.inj h
  · intro x hx y hy
    obtain ⟨a, -, rfl⟩ := List.mem_map.mp hx
    obtain ⟨b, -, rfl⟩ := List.mem_map.mp hy
    exact Sided.noConfusion

/-- Two columns of one operand have different names. -/
theorem isLeft_ne_of_name_eq (hleft : left.names.Nodup) (hright : right.names.Nodup) {x y : Sided}
    (hx : x ∈ all left right) (hy : y ∈ all left right) (hne : y ≠ x) (hname : y.name = x.name) :
    x.isLeft ≠ y.isLeft := by
  intro hside
  apply hne
  cases x with
  | ofLeft a =>
    cases y with
    | ofLeft b =>
      rw [mem_all_ofLeft] at hx hy
      exact congrArg ofLeft (List.inj_on_of_nodup_map hleft hy hx hname)
    | ofRight b => cases hside
  | ofRight a =>
    cases y with
    | ofLeft b => cases hside
    | ofRight b =>
      rw [mem_all_ofRight] at hx hy
      exact congrArg ofRight (List.inj_on_of_nodup_map hright hy hx hname)

end Sided

/-- A set of columns that has all those whose names are in both operands, and all those that are
called as one of the set will be. -/
structure NamesTaken (labels : String × String) (left right : Heading) (set : Set Sided) :
    Prop where
  shared : ∀ x ∈ left, ∀ y ∈ right, x.name = y.name → .ofLeft x ∈ set ∧ .ofRight y ∈ set
  taken : ∀ y ∈ set, ∀ x ∈ Sided.all left right, x.name = y.newName labels → x ∈ set

variable {labels : String × String} {left right : Heading}

/-- A column whose name occurs on the other side belongs to every set that takes names. -/
theorem NamesTaken.mem_of_name_eq {set : Set Sided} (h : NamesTaken labels left right set)
    {x y : Sided} (hx : x ∈ Sided.all left right) (hy : y ∈ Sided.all left right)
    (hside : x.isLeft ≠ y.isLeft) (hname : y.name = x.name) : x ∈ set := by
  cases x with
  | ofLeft a =>
    cases y with
    | ofLeft b => exact absurd rfl hside
    | ofRight b =>
      rw [Sided.mem_all_ofLeft] at hx
      rw [Sided.mem_all_ofRight] at hy
      exact (h.shared a hx b hy hname.symm).1
  | ofRight a =>
    cases y with
    | ofLeft b =>
      rw [Sided.mem_all_ofRight] at hx
      rw [Sided.mem_all_ofLeft] at hy
      exact (h.shared b hy a hx hname).2
    | ofRight b => exact absurd rfl hside

/-! ## Rounds as steps between sets of names -/

namespace Slot

/-- The slots of a product before its first round. -/
def initial (labels : String × String) (left right : Heading) : List Slot :=
  ofHeading labels.1 left ++ ofHeading labels.2 right

/-- The slot of a column, when the columns of certain names are qualified. -/
def marked (labels : String × String) (marks : String → Bool) (x : Sided) : Slot :=
  ⟨x.label labels, x.column, marks x.name⟩

variable {marks : String → Bool} {x y : Sided}

theorem name_marked_of_true (h : marks x.name = true) :
    (marked labels marks x).name = x.newName labels := by
  rw [name, marked, if_pos h]
  rfl

theorem name_marked_of_false (h : marks x.name = false) :
    (marked labels marks x).name = x.name := by
  rw [name, marked, h]
  rfl

/-- The names that are qualified after a round: also those that two slots have at present. -/
def nextMarks (labels : String × String) (columns : List Sided) (marks : String → Bool) :
    String → Bool :=
  fun text => marks text || 1 < (columns.map fun x => (marked labels marks x).name).count text

/-- At first no name is marked. -/
theorem initial_eq (labels : String × String) (left right : Heading) :
    initial labels left right =
      (Sided.all left right).map (marked labels fun _ => false) := by
  rw [Sided.all, List.map_append, List.map_map, List.map_map]
  rfl

/-- Columns of one name clash alike, and so rounds keep what is qualified a matter of names. -/
theorem round_marked (columns : List Sided) (marks : String → Bool) :
    round (columns.map (marked labels marks)) =
      columns.map (marked labels (nextMarks labels columns marks)) := by
  rw [round, List.map_map, List.map_map]
  apply List.map_congr_left
  intro x _
  show (if clashes (columns.map fun x => (marked labels marks x).name)
    (marked labels marks x) then _ else _) = _
  rw [clashes]
  cases hmark : marks x.name with
  | true => simp [marked, nextMarks, hmark]
  | false =>
    have hnext : nextMarks labels columns marks x.name =
        decide (1 < (columns.map fun x => (marked labels marks x).name).count x.name) := by
      rw [nextMarks, hmark, Bool.false_or]
    show _ = Slot.mk (x.label labels) x.column (nextMarks labels columns marks x.name)
    rw [hnext, name_marked_of_false hmark, marked, hmark]
    cases decide (1 < (columns.map fun x => (marked labels marks x).name).count x.name) <;> rfl

/-- A round of qualification marks the names that are not unique, so rounds can be told by marks
alone. -/
theorem iterate_round_marked (columns : List Sided) (marks : String → Bool) (rounds : ℕ) :
    round^[rounds] (columns.map (marked labels marks)) =
      columns.map (marked labels ((nextMarks labels columns)^[rounds] marks)) := by
  induction rounds generalizing marks with
  | zero => rfl
  | succ rounds ih =>
    rw [Function.iterate_succ_apply, Function.iterate_succ_apply, round_marked, ih]

/-- Settling does as many rounds as find a clash, within its fuel. -/
theorem exists_settle_eq_iterate (fuel : ℕ) (slots : List Slot) :
    ∃ rounds ≤ fuel, settle fuel slots = round^[rounds] slots ∧
      ∀ earlier < rounds, settled (round^[earlier] slots) = false := by
  induction fuel generalizing slots with
  | zero => exact ⟨0, le_rfl, rfl, by simp⟩
  | succ fuel ih =>
    rw [settle]
    by_cases h : settled slots = true
    · rw [if_pos h]
      exact ⟨0, by omega, rfl, by simp⟩
    · rw [if_neg h]
      obtain ⟨rounds, hle, hsettle, hearlier⟩ := ih (round slots)
      refine ⟨rounds + 1, by omega, hsettle, ?_⟩
      intro earlier hlt
      cases earlier with
      | zero => exact Bool.of_not_eq_true h
      | succ earlier => exact hearlier earlier (by omega)

/-! ## No column is qualified needlessly -/

/-- Of what occurs twice among the images of distinct entries, any entry leaves another one. -/
theorem exists_ne_of_one_lt_count_map {α β : Type} [BEq β] [LawfulBEq β] {f : α → β} {l : List α}
    (hl : l.Nodup) {b : β} (h : 1 < (l.map f).count b) (x : α) : ∃ y ∈ l, y ≠ x ∧ f y = b := by
  by_contra hnone
  have hsubset : l.filter (f · == b) ⊆ [x] := by
    intro y hy
    obtain ⟨hmem, hfy⟩ := List.mem_filter.mp hy
    by_contra hne
    exact hnone ⟨y, hmem, by simpa using hne, eq_of_beq hfy⟩
  have hlength := ((hl.filter _).subperm hsubset).length_le
  rw [List.count_eq_countP, List.countP_map, List.countP_eq_length_filter] at h
  exact absurd h (not_lt.mpr hlength)

/-- **No column is qualified needlessly.**  What a round qualifies is in every set that has the
columns whose names it takes. -/
theorem mem_of_nextMarks (hleft : left.names.Nodup) (hright : right.names.Nodup) {set : Set Sided}
    (hset : NamesTaken labels left right set)
    (hmarks : ∀ x ∈ Sided.all left right, marks x.name = true → x ∈ set) :
    ∀ x ∈ Sided.all left right,
      nextMarks labels (Sided.all left right) marks x.name = true → x ∈ set := by
  intro x hx hnext
  by_cases hmark : marks x.name = true
  · exact hmarks x hx hmark
  · rw [nextMarks, Bool.of_not_eq_true hmark, Bool.false_or, decide_eq_true_eq] at hnext
    obtain ⟨y, hy, hne, hpresent⟩ :=
      exists_ne_of_one_lt_count_map (Sided.nodup_all hleft hright) hnext x
    -- The other slot has that name from its operand or from having been qualified.
    cases hother : marks y.name with
    | false =>
      rw [name_marked_of_false hother] at hpresent
      have hside := Sided.isLeft_ne_of_name_eq hleft hright hx hy hne hpresent
      exact hset.mem_of_name_eq hx hy hside hpresent
    | true =>
      rw [name_marked_of_true hother] at hpresent
      exact hset.taken y (hmarks y hy hother) x hx hpresent.symm

/-- Only names of columns in a set that takes names are ever marked, so what is qualified lies in
all such sets. The induction is on the rounds. -/
theorem mem_of_iterate_nextMarks (hleft : left.names.Nodup) (hright : right.names.Nodup)
    {set : Set Sided} (hset : NamesTaken labels left right set) (rounds : ℕ) :
    ∀ x ∈ Sided.all left right,
      (nextMarks labels (Sided.all left right))^[rounds] (fun _ => false) x.name = true →
        x ∈ set := by
  induction rounds with
  | zero =>
    intro x _ h
    cases h
  | succ rounds ih =>
    rw [Function.iterate_succ_apply']
    exact mem_of_nextMarks hleft hright hset ih

/-! ## No clash is missed -/

/-- **No clash is missed.**  Settled slots that share a name are qualified. -/
theorem marks_of_settled {columns : List Sided}
    (h : settled (columns.map (marked labels marks)) = true) (hx : x ∈ columns) (hy : y ∈ columns)
    (hne : y ≠ x) (hname : (marked labels marks y).name = (marked labels marks x).name) :
    marks x.name = true := by
  have hcount := one_lt_count_map (f := fun x => (marked labels marks x).name) hx hy hne hname
  apply qualified_of_settled h (List.mem_map_of_mem hx)
  rw [List.map_map]
  exact hcount

/-- They are of different sides. -/
theorem isLeft_ne_of_settled (hleft : left.names.Nodup) (hright : right.names.Nodup)
    (h : settled ((Sided.all left right).map (marked labels marks)) = true)
    (hx : x ∈ Sided.all left right) (hy : y ∈ Sided.all left right) (hne : y ≠ x)
    (hname : (marked labels marks y).name = (marked labels marks x).name) :
    x.isLeft ≠ y.isLeft := by
  intro hside
  have hmark := marks_of_settled h hx hy hne hname
  have hother := marks_of_settled h hy hx hne.symm hname.symm
  rw [name_marked_of_true hmark, name_marked_of_true hother, Sided.newName, Sided.newName,
    Sided.label, Sided.label, hside] at hname
  -- Behind one label the names would be the same.
  have hsame : y.name = x.name := by
    have hlist := congrArg String.toList hname
    simp only [String.toList_append, List.append_cancel_left_eq] at hlist
    exact String.toList_inj.mp hlist
  exact Sided.isLeft_ne_of_name_eq hleft hright hx hy hne hsame hside

/-- When nothing is left to qualify, what is qualified takes names. -/
theorem namesTaken_of_settled
    (h : settled ((Sided.all left right).map (marked labels marks)) = true) :
    NamesTaken labels left right {x | x ∈ Sided.all left right ∧ marks x.name = true} where
  shared := by
    intro x hx y hy hname
    have hx' : .ofLeft x ∈ Sided.all left right := Sided.mem_all_ofLeft.mpr hx
    have hy' : .ofRight y ∈ Sided.all left right := Sided.mem_all_ofRight.mpr hy
    have hsame : marks (Sided.name (.ofRight y)) = marks (Sided.name (.ofLeft x)) :=
      congrArg marks hname.symm
    have hmark : marks (Sided.name (.ofLeft x)) = true := by
      by_contra hmark
      have hmark' := Bool.of_not_eq_true hmark
      apply hmark
      apply marks_of_settled h hx' hy' Sided.noConfusion
      rw [name_marked_of_false hmark', name_marked_of_false (hsame.trans hmark')]
      exact hname.symm
    exact ⟨⟨hx', hmark⟩, ⟨hy', hsame.trans hmark⟩⟩
  taken := by
    rintro y ⟨hy, hother⟩ x hx hname
    refine ⟨hx, ?_⟩
    by_contra hmark
    have hne : y ≠ x := by
      rintro rfl
      exact hmark hother
    apply hmark
    apply marks_of_settled h hx hy hne
    rw [name_marked_of_true hother, name_marked_of_false (Bool.of_not_eq_true hmark), hname]

/-! ## The least set -/

/-- The columns of certain names. -/
def chosen (columns : List Sided) (marks : String → Bool) (x : Sided) : Bool :=
  decide (x ∈ columns) && marks x.name

theorem chosen_eq_true {columns : List Sided} :
    chosen columns marks x = true ↔ x ∈ columns ∧ marks x.name = true := by
  rw [chosen, Bool.and_eq_true, decide_eq_true_eq]

/-- Marks and chosen columns give the same names. -/
theorem toColumn_marked {columns : List Sided} (hx : x ∈ columns) :
    (marked labels marks x).toColumn = Sided.toColumn labels (chosen columns marks) x := by
  rw [Sided.toColumn, chosen, decide_eq_true hx, Bool.true_and, Slot.toColumn]
  cases hmark : marks x.name with
  | true =>
    rw [name_marked_of_true hmark]
    rfl
  | false =>
    rw [name_marked_of_false hmark]
    rfl

/-- Marks and chosen columns give the same names to all columns of a product. -/
theorem map_toColumn_marked (columns : List Sided) :
    (columns.map (marked labels marks)).map toColumn =
      columns.map (Sided.toColumn labels (chosen columns marks)) := by
  rw [List.map_map]
  exact List.map_congr_left fun x hx => toColumn_marked hx

/-- When nothing is left to qualify, names can only coincide between qualified columns of different
sides. -/
theorem chosen_of_settled (hleft : left.names.Nodup) (hright : right.names.Nodup)
    (h : settled ((Sided.all left right).map (marked labels marks)) = true)
    (hx : x ∈ Sided.all left right) (hy : y ∈ Sided.all left right) (hne : y ≠ x)
    (hname : (Sided.toColumn labels (chosen (Sided.all left right) marks) y).name =
      (Sided.toColumn labels (chosen (Sided.all left right) marks) x).name) :
    chosen (Sided.all left right) marks x = true ∧ chosen (Sided.all left right) marks y = true ∧
      x.isLeft ≠ y.isLeft := by
  rw [← toColumn_marked hx, ← toColumn_marked hy] at hname
  rw [chosen_eq_true, chosen_eq_true]
  exact ⟨⟨hx, marks_of_settled h hx hy hne hname⟩,
    ⟨hy, marks_of_settled h hy hx hne.symm hname.symm⟩,
    isLeft_ne_of_settled hleft hright h hx hy hne hname⟩

/-- After some rounds the slots are settled, and the qualified columns are the least set that has
those whose names it takes. -/
theorem exists_isLeast_chosen (labels : String × String) (hleft : left.names.Nodup)
    (hright : right.names.Nodup) :
    ∃ rounds ≤ left.length + right.length, ∃ marks : String → Bool,
      (∀ earlier < rounds, settled (round^[earlier] (initial labels left right)) = false) ∧
      round^[rounds] (initial labels left right) =
        (Sided.all left right).map (marked labels marks) ∧
      settled ((Sided.all left right).map (marked labels marks)) = true ∧
      Relation.productHeading left right labels.1 labels.2 =
        (Sided.all left right).map
          (Sided.toColumn labels (chosen (Sided.all left right) marks)) ∧
      IsLeast {set | NamesTaken labels left right set}
        {x | chosen (Sided.all left right) marks x = true} := by
  have hlength : (initial labels left right).length = left.length + right.length := by
    simp [initial, ofHeading]
  obtain ⟨rounds, hle, hsettle, hearlier⟩ :=
    exists_settle_eq_iterate (left.length + right.length) (initial labels left right)
  have hmarked : round^[rounds] (initial labels left right) =
      (Sided.all left right).map (marked labels
        ((nextMarks labels (Sided.all left right))^[rounds] fun _ => false)) := by
    rw [initial_eq, iterate_round_marked]
  have hsettled : settled (round^[rounds] (initial labels left right)) = true := by
    rw [← hsettle]
    apply settled_settle
    rw [← hlength]
    exact List.countP_le_length
  refine ⟨rounds, hle, _, hearlier, hmarked, hmarked ▸ hsettled, ?_, ?_, ?_⟩
  · show (settle (initial labels left right).length (initial labels left right)).map toColumn = _
    rw [hlength, hsettle, hmarked, map_toColumn_marked]
  · rw [hmarked] at hsettled
    show NamesTaken labels left right _
    simpa only [chosen_eq_true] using namesTaken_of_settled hsettled
  · intro set hset x hx
    obtain ⟨hmem, hmark⟩ := chosen_eq_true.mp hx
    exact mem_of_iterate_nextMarks hleft hright hset rounds x hmem hmark

end Slot

namespace Relation

/-! ## Rows of products -/

theorem productRows_cons (row : Row) (left right : List Row) :
    productRows (row :: left) right = right.map (row ++ ·) ++ productRows left right :=
  List.flatMap_cons

/-- A product has as many rows as there are pairs of them. -/
theorem length_productRows (left right : List Row) :
    (productRows left right).length = left.length * right.length := by
  induction left with
  | nil => simp [productRows]
  | cons row left ih =>
    rw [productRows_cons, List.length_append, List.length_map, ih, List.length_cons, Nat.succ_mul,
      Nat.add_comm]

/-- The left row varies slowest. -/
theorem getElem?_productRows {left right : List Row} {i j : ℕ} {row other : Row}
    (hrow : left[i]? = some row) (hother : right[j]? = some other) :
    (productRows left right)[i * right.length + j]? = some (row ++ other) := by
  have hj : j < right.length := (List.getElem?_eq_some_iff.mp hother).1
  induction left generalizing i with
  | nil => simp at hrow
  | cons first left ih =>
    rw [productRows_cons]
    cases i with
    | zero =>
      obtain rfl := Option.some.inj hrow
      rw [Nat.zero_mul, Nat.zero_add, List.getElem?_append_left (by simpa using hj),
        List.getElem?_map, hother]
      rfl
    | succ i =>
      have hsplit : (i + 1) * right.length + j = right.length + (i * right.length + j) := by
        rw [Nat.succ_mul]
        omega
      rw [hsplit, List.getElem?_append_right (by simp), List.length_map, Nat.add_sub_cancel_left]
      exact ih hrow

/-! ## Faults of products -/

variable {a b : Relation} {columns : List Sided} {f : Sided → Column}

/-- A product reports a name that two of its columns share. -/
theorem exists_of_product_eq_error (hcolumns : columns.Nodup)
    (hheading : productHeading a.heading b.heading labels.1 labels.2 = columns.map f)
    {fault : AlgebraFault} (h : a.product b labels.1 labels.2 = .error fault) :
    ∃ x ∈ columns, ∃ y ∈ columns, y ≠ x ∧ (f y).name = (f x).name ∧
      fault = .repeatedColumn (f x).name := by
  obtain ⟨name, hrepeated, rfl⟩ := product_eq_error.mp h
  rw [hheading] at hrepeated
  obtain ⟨before, after, hnames, hbefore, -⟩ := Heading.repeated?_eq_some.mp hrepeated
  have hmap : columns.map (fun x => (f x).name) = before ++ name :: after := by
    rw [← hnames, Heading.names, List.map_map]
    rfl
  have hmem : name ∈ columns.map fun x => (f x).name := by
    rw [hmap]
    simp
  obtain ⟨x, hx, rfl⟩ := List.mem_map.mp hmem
  have hcount : 1 < (columns.map fun x => (f x).name).count (f x).name := by
    have hpos := List.count_pos_iff.mpr hbefore
    rw [hmap, List.count_append, List.count_cons_self]
    omega
  obtain ⟨y, hy, hne, hname⟩ := Slot.exists_ne_of_one_lt_count_map hcolumns hcount x
  exact ⟨x, hx, y, hy, hne, hname, rfl⟩

/-- A product fails exactly if two columns end up with the same name. -/
theorem exists_product_eq_error_iff (hcolumns : columns.Nodup)
    (hheading : productHeading a.heading b.heading labels.1 labels.2 = columns.map f) :
    (∃ fault, a.product b labels.1 labels.2 = .error fault) ↔
      ∃ x ∈ columns, ∃ y ∈ columns, y ≠ x ∧ (f y).name = (f x).name := by
  constructor
  · rintro ⟨fault, h⟩
    obtain ⟨x, hx, y, hy, hne, hname, -⟩ := exists_of_product_eq_error hcolumns hheading h
    exact ⟨x, hx, y, hy, hne, hname⟩
  · rintro ⟨x, hx, y, hy, hne, hname⟩
    cases h : a.product b labels.1 labels.2 with
    | error fault => exact ⟨fault, rfl⟩
    | ok c =>
      have hnodup := (product_eq_ok.mp h).1
      rw [hheading, Heading.names, List.map_map] at hnodup
      exact absurd (List.inj_on_of_nodup_map hnodup hy hx hname) hne

/-! ## Products -/

/-- How a product names its columns: `qualified` says which of them are called by their label, and
`rounds` is how often it takes to find out. -/
structure LeastQualification (a b : Relation) (labels : String × String) (rounds : ℕ)
    (qualified : Sided → Bool) : Prop where
  /-- There are no more rounds than columns. -/
  rounds_le : rounds ≤ a.heading.length + b.heading.length
  /-- Each of the rounds finds a clash. -/
  clashing : ∀ earlier < rounds,
    Slot.settled (Slot.round^[earlier] (Slot.initial labels a.heading b.heading)) = false
  /-- After them there is none. -/
  settled : Slot.settled (Slot.round^[rounds] (Slot.initial labels a.heading b.heading)) = true
  /-- Then the columns are qualified or have the names that they had, and they have their kinds. -/
  columns : (Slot.round^[rounds] (Slot.initial labels a.heading b.heading)).map Slot.toColumn =
    (Sided.all a.heading b.heading).map (Sided.toColumn labels qualified)
  /-- The qualified columns are the least set that has all columns whose names it takes. -/
  isLeast : IsLeast {set | NamesTaken labels a.heading b.heading set} {x | qualified x = true}
  /-- Only qualified columns of different sides can come to share a name. -/
  coincide : ∀ x ∈ Sided.all a.heading b.heading, ∀ y ∈ Sided.all a.heading b.heading, y ≠ x →
    (Sided.toColumn labels qualified y).name = (Sided.toColumn labels qualified x).name →
      qualified x = true ∧ qualified y = true ∧ x.isLeft ≠ y.isLeft
  /-- The product fails just if two columns do. -/
  fails : (∃ fault, a.product b labels.1 labels.2 = .error fault) ↔
    ∃ x ∈ Sided.all a.heading b.heading, ∃ y ∈ Sided.all a.heading b.heading, y ≠ x ∧
      (Sided.toColumn labels qualified y).name = (Sided.toColumn labels qualified x).name
  /-- Then it reports a name that two columns share. -/
  fault : ∀ fault, a.product b labels.1 labels.2 = .error fault →
    ∃ x ∈ Sided.all a.heading b.heading, ∃ y ∈ Sided.all a.heading b.heading, y ≠ x ∧
      (Sided.toColumn labels qualified y).name = (Sided.toColumn labels qualified x).name ∧
      fault = .repeatedColumn (Sided.toColumn labels qualified x).name
  /-- Otherwise it has the columns of the left and then of the right operand, and a row for each
  pair of rows. -/
  result : ∀ c, a.product b labels.1 labels.2 = .ok c →
    c.heading = (Sided.all a.heading b.heading).map (Sided.toColumn labels qualified) ∧
      c.rows.length = a.rows.length * b.rows.length ∧
      ∀ i j row other, a.rows[i]? = some row → b.rows[j]? = some other →
        c.rows[i * b.rows.length + j]? = some (row ++ other)

/-- **Product naming is the least fixed point.**  Under all labels, a product of well-formed
relations qualifies the least set of columns that has those whose names are in both operands and
those whose names its own columns are given. -/
theorem exists_leastQualification (ha : a.WellFormed) (hb : b.WellFormed)
    (leftLabel rightLabel : String) :
    ∃ rounds qualified, LeastQualification a b (leftLabel, rightLabel) rounds qualified := by
  obtain ⟨rounds, hle, marks, hclashing, hmarked, hsettled, hheading, hleast⟩ :=
    Slot.exists_isLeast_chosen (leftLabel, rightLabel) ha.nodup hb.nodup
  have hall := Sided.nodup_all ha.nodup hb.nodup
  refine ⟨rounds, Slot.chosen (Sided.all a.heading b.heading) marks, hle, hclashing, ?_, ?_, hleast,
    ?_, exists_product_eq_error_iff hall hheading, ?_, ?_⟩
  · rw [hmarked]
    exact hsettled
  · rw [hmarked, Slot.map_toColumn_marked]
  · intro x hx y hy hne hname
    exact Slot.chosen_of_settled ha.nodup hb.nodup hsettled hx hy hne hname
  · intro fault h
    exact exists_of_product_eq_error hall hheading h
  · intro c h
    obtain ⟨-, rfl⟩ := product_eq_ok.mp h
    refine ⟨hheading, length_productRows a.rows b.rows, ?_⟩
    intro i j row other hrow hother
    exact getElem?_productRows hrow hother

/-- A column `B.id` of the left operand has to give way to the `id` of the right one, which gives
way to the `id` of the left one. -/
theorem exists_leastQualification_of_cascade :
    let a : Relation := ⟨[⟨"id", .numeric⟩, ⟨"B.id", .string⟩], [[.number .zero, .text "a"]]⟩
    let b : Relation := ⟨[⟨"id", .string⟩, ⟨"name", .string⟩], [[.text "b", .text "c"]]⟩
    a.WellFormed ∧ b.WellFormed ∧
      a.product b "A" "B" = .ok ⟨[⟨"A.id", .numeric⟩, ⟨"A.B.id", .string⟩, ⟨"B.id", .string⟩,
        ⟨"name", .string⟩], [[.number .zero, .text "a", .text "b", .text "c"]]⟩ ∧
      ∃ rounds qualified, LeastQualification a b ("A", "B") rounds qualified := by
  intro a b
  have ha : a.WellFormed := ⟨by decide, by decide⟩
  have hb : b.WellFormed := ⟨by decide, by decide⟩
  exact ⟨ha, hb, by decide, exists_leastQualification ha hb "A" "B"⟩

end Relation

end RelationScript
