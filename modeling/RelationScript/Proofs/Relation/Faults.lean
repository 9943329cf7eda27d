/-
# Faults of projections and selections

Which fault an operator in brackets has can be read off its names and the heading.  A name that is
unknown comes before anything else, even where an earlier name is repeated; then come repeated
names and conditions of the wrong type.

* `FirstUnknown`, `FirstRepeated` : the name at fault in a list;
* `Comparand.Fits`, `Comparand.Clashes` : which conditions have a type, and why others do not;
* `Relation.project_eq_error`, `Relation.select_eq_error` : the faults of the operators;
* `Relation.exists_project_iff`, `Relation.exists_select_iff` : when they have none.
-/
import RelationScript.Proofs.Relation.Lookup
import RelationScript.Proofs.Relation.Trichotomy

namespace RelationScript

/-! ## Names at fault -/

/-- The first of the names that is not among the known ones. -/
def FirstUnknown (known names : List String) (name : String) : Prop :=
  ∃ before after, names = before ++ name :: after ∧ before ⊆ known ∧ name ∉ known

/-- The first of the names that equals an earlier one. -/
def FirstRepeated (names : List String) (name : String) : Prop :=
  ∃ before after, names = before ++ name :: after ∧ name ∈ before ∧ before.Nodup

/-- There is a first unknown name if some name is unknown. -/
theorem exists_firstUnknown_iff {known names : List String} :
    (∃ name, FirstUnknown known names name) ↔ ∃ name ∈ names, name ∉ known := by
  constructor
  · rintro ⟨name, before, after, rfl, -, hname⟩
    exact ⟨name, by simp, hname⟩
  · intro h
    induction names using List.reverseRecOn with
    | nil => simp at h
    | append_singleton names last ih =>
      by_cases hknown : names ⊆ known
      · -- Only the last name can be unknown.
        obtain ⟨name, hname, hunknown⟩ := h
        rcases List.mem_append.mp hname with hname | hname
        · exact absurd (hknown hname) hunknown
        · obtain rfl := List.mem_singleton.mp hname
          exact ⟨name, names, [], rfl, hknown, hunknown⟩
      · have hunknown : ∃ name ∈ names, name ∉ known := by
          simpa [List.subset_def] using hknown
        obtain ⟨name, before, after, rfl, hbefore, hname⟩ := ih hunknown
        exact ⟨name, before, after ++ [last], by simp, hbefore, hname⟩

/-- There is a first repeated name if the names are not distinct. -/
theorem exists_firstRepeated_iff {names : List String} :
    (∃ name, FirstRepeated names name) ↔ ¬ names.Nodup := by
  constructor
  · rintro ⟨name, before, after, rfl, hname, -⟩ hnodup
    exact (List.nodup_append.mp hnodup).2.2 name hname name List.mem_cons_self rfl
  · intro h
    induction names using List.reverseRecOn with
    | nil => exact absurd List.nodup_nil h
    | append_singleton names last ih =>
      by_cases hnodup : names.Nodup
      · -- Only the last name can be repeated.
        have hlast : last ∈ names := by
          by_contra hlast
          exact h (List.nodup_append_comm.mp (List.nodup_cons.mpr ⟨hlast, hnodup⟩))
        exact ⟨last, names, [], rfl, hlast, hnodup⟩
      · obtain ⟨name, before, after, rfl, hname, hbefore⟩ := ih hnodup
        exact ⟨name, before, after ++ [last], by simp, hname, hbefore⟩

namespace Heading

variable {heading : Heading} {name : String} {names : List String} {fault : AlgebraFault}

theorem position?_eq_none : heading.position? name = none ↔ name ∉ heading.names := by
  constructor
  · intro h hname
    obtain ⟨index, hindex⟩ := exists_position? hname
    rw [h] at hindex
    cases hindex
  · intro h
    cases hposition : heading.position? name with
    | none => rfl
    | some index => exact absurd (List.mem_of_getElem? (getElem?_of_position? hposition)) h

theorem locate_eq_error :
    heading.locate name = .error fault ↔ name ∉ heading.names ∧ fault = .unknownColumn name := by
  rw [← position?_eq_none, locate]
  cases heading.position? name <;> simp [eq_comm]

theorem exists_locate : (∃ index, heading.locate name = .ok index) ↔ name ∈ heading.names := by
  constructor
  · rintro ⟨index, h⟩
    exact List.mem_of_getElem? (getElem?_of_position? (locate_eq_ok.mp h))
  · intro h
    obtain ⟨index, hindex⟩ := exists_position? h
    exact ⟨index, locate_eq_ok.mpr hindex⟩

/-- The look-up of several names fails on the first that is unknown. -/
theorem locateAll_eq_error :
    heading.locateAll names = .error fault ↔
      ∃ name, FirstUnknown heading.names names name ∧ fault = .unknownColumn name := by
  rw [locateAll_eq_mapM, mapM_eq_error]
  simp only [exists_locate, locate_eq_error]
  constructor
  · rintro ⟨before, name, after, hnames, hbefore, hname, hfault⟩
    exact ⟨name, ⟨before, after, hnames, hbefore, hname⟩, hfault⟩
  · rintro ⟨name, ⟨before, after, hnames, hbefore, hname⟩, hfault⟩
    exact ⟨before, name, after, hnames, hbefore, hname, hfault⟩

/-- Names that a heading does not have are the ones it does not find. -/
theorem find_eq_error :
    heading.find name = .error fault ↔ name ∉ heading.names ∧ fault = .unknownColumn name := by
  constructor
  · intro h
    refine ⟨fun hname => ?_, ?_⟩
    · obtain ⟨index, hindex⟩ := exists_position? hname
      have hcolumn := getElem?_of_position? hindex
      rw [Heading.names, List.getElem?_map, Option.map_eq_some_iff] at hcolumn
      obtain ⟨column, hcolumn, -⟩ := hcolumn
      rw [find_eq_ok.mpr ⟨hindex, hcolumn⟩] at h
      cases h
    · rw [find] at h
      split at h
      next => simp at h
      next => exact (Except.error.inj h).symm
  · rintro ⟨hname, rfl⟩
    rw [find, position?_eq_none.mpr hname]

/-- A column of a heading without repeated names is what its name finds. -/
theorem find_eq_ok_of_mem (hnodup : heading.names.Nodup) {column : Column}
    (h : column ∈ heading) : ∃ index, heading.find column.name = .ok (index, column) := by
  obtain ⟨index, hindex⟩ := List.mem_iff_getElem?.mp h
  exact ⟨index, find_eq_ok_of_getElem? hnodup hindex⟩

theorem mem_of_find {index : ℕ} {column : Column} (h : heading.find name = .ok (index, column)) :
    column ∈ heading ∧ column.name = name := by
  obtain ⟨hposition, hcolumn⟩ := find_eq_ok.mp h
  have hname := getElem?_of_position? hposition
  rw [names, List.getElem?_map, hcolumn, Option.map_some, Option.some.injEq] at hname
  exact ⟨List.mem_of_getElem? hcolumn, hname⟩

end Heading

namespace Relation

/-! ## Projections -/

variable {a : Relation} {names : List String} {dedup : Bool} {fault : AlgebraFault}

/-- A projection fails on the first name that is unknown, and if there is none on the first that
is repeated. -/
theorem project_eq_error :
    a.project names dedup = .error fault ↔
      (∃ name, FirstUnknown a.heading.names names name ∧ fault = .unknownColumn name) ∨
        names ⊆ a.heading.names ∧
          ∃ name, FirstRepeated names name ∧ fault = .repeatedColumn name := by
  rw [project, bind_eq_error, Heading.locateAll_eq_error]
  refine or_congr_right ?_
  constructor
  · rintro ⟨indices, hindices, h⟩
    rcases bind_eq_error.mp h with h | ⟨heading, -, h⟩
    · obtain ⟨name, hname, rfl⟩ := Heading.check_eq_error.mp h
      rw [Heading.repeated?_eq_some, Heading.names_pick hindices] at hname
      exact ⟨Heading.subset_of_locateAll hindices, name, hname, rfl⟩
    · cases h
  · rintro ⟨hknown, name, hname, rfl⟩
    obtain ⟨indices, hindices⟩ := Heading.exists_locateAll hknown
    refine ⟨indices, hindices, bind_eq_error.mpr (Or.inl (Heading.check_eq_error.mpr ?_))⟩
    refine ⟨name, ?_, rfl⟩
    rw [Heading.repeated?_eq_some, Heading.names_pick hindices]
    exact hname

/-- A projection fails only on a name that is unknown or repeated. -/
theorem exists_of_project_eq_error (h : a.project names dedup = .error fault) :
    ∃ name, fault = .unknownColumn name ∨ fault = .repeatedColumn name := by
  rcases project_eq_error.mp h with ⟨name, -, rfl⟩ | ⟨-, name, -, rfl⟩
  · exact ⟨name, Or.inl rfl⟩
  · exact ⟨name, Or.inr rfl⟩

/-- A projection exists exactly if all names are known and none is repeated. -/
theorem exists_project_iff :
    (∃ b, a.project names dedup = .ok b) ↔ names ⊆ a.heading.names ∧ names.Nodup := by
  constructor
  · rintro ⟨b, h⟩
    obtain ⟨indices, hindices, hnodup, -⟩ := project_eq_ok.mp h
    rw [Heading.names_pick hindices] at hnodup
    exact ⟨Heading.subset_of_locateAll hindices, hnodup⟩
  · rintro ⟨hknown, hnodup⟩
    obtain ⟨indices, hindices⟩ := Heading.exists_locateAll hknown
    refine ⟨_, project_eq_ok.mpr ⟨indices, hindices, ?_, rfl⟩⟩
    rwa [Heading.names_pick hindices]

/-- A projection lists the columns as they are named, and under them the cells of each row. -/
theorem WellFormed.forall₂_project {b : Relation} (ha : a.WellFormed)
    (h : a.project names dedup = .ok b) :
    List.Forall₂ (fun name column => column ∈ a.heading ∧ column.name = name) names b.heading ∧
      ∃ rows, List.Forall₂ (fun row picked => List.Forall₂ (fun name cell => ∃ index : ℕ,
          a.heading.names[index]? = some name ∧ row[index]? = some cell) names picked)
          a.rows rows ∧
        b.rows = if dedup then distinct rows else rows := by
  obtain ⟨indices, hindices, -, rfl⟩ := project_eq_ok.mp h
  have hnames : List.Forall₂ (fun name index => a.heading.names[index]? = some name) names
      indices :=
    (Heading.locateAll_eq_ok.mp hindices).imp fun _ _ => Heading.getElem?_of_position?
  constructor
  · refine (forall₂_pick hnames (by simp [Heading.names])).imp ?_
    rintro name column ⟨index, hname, hcolumn⟩
    rw [Heading.names, List.getElem?_map, hcolumn, Option.map_some, Option.some.injEq] at hname
    exact ⟨List.mem_of_getElem? hcolumn, hname⟩
  · refine ⟨a.rows.map (pick indices), ?_, rfl⟩
    rw [List.forall₂_map_right_iff, List.forall₂_same]
    intro row hrow
    exact forall₂_pick hnames (by rw [ha.length_eq hrow, Heading.names, List.length_map])

/-! ## Right-hand sides -/

end Relation

/-- A right-hand side that can be compared with the column `left`: a column of its kind, or a
literal that writes a cell of its kind. -/
inductive Comparand.Fits (heading : Heading) (left : Column) : Comparand → Prop
  | column {right : Column} (hright : right ∈ heading) (hkind : right.kind = left.kind) :
      Fits heading left (.column right.name)
  | number (value : Decimal) (hkind : left.kind = .numeric) :
      Fits heading left (.literal (.number value))
  | text (value : String) (hkind : left.kind = .string) : Fits heading left (.literal (.text value))
  | date {value : String} {date : Date} (hkind : left.kind = .date)
      (hvalue : Date.read? value = some date) : Fits heading left (.literal (.text value))

/-- Why a right-hand side cannot be compared with the column `left`. -/
inductive Comparand.Clashes (heading : Heading) (left : Column) : Comparand → Mismatch → Prop
  | columns {right : Column} (hright : right ∈ heading) (hkind : right.kind ≠ left.kind) :
      Clashes heading left (.column right.name) (.columns left right)
  | notText (value : Decimal) (hkind : left.kind = .string) :
      Clashes heading left (.literal (.number value)) (.notText (.number value))
  | notDate (value : Decimal) (hkind : left.kind = .date) :
      Clashes heading left (.literal (.number value)) (.notDate (.number value))
  | notNumber (value : String) (hkind : left.kind = .numeric) :
      Clashes heading left (.literal (.text value)) (.notNumber (.text value))
  | noSuchDate {value : String} (hkind : left.kind = .date) (hvalue : Date.read? value = none) :
      Clashes heading left (.literal (.text value)) (.noSuchDate (.text value))

namespace Relation

variable {heading : Heading} {left : Column} {comparand : Comparand} {fault : AlgebraFault}

/-- A literal has no cell beside a column exactly where it clashes with the column's kind. -/
theorem coerce_eq_error {value : Literal} {mismatch : Mismatch} :
    coerce value left.kind = .error mismatch ↔
      Comparand.Clashes heading left (.literal value) mismatch := by
  constructor
  · intro h
    obtain ⟨name, kind⟩ := left
    cases value with
    | number n =>
      cases kind with
      | numeric => cases h
      | string =>
        cases h
        exact .notText n rfl
      | date =>
        cases h
        exact .notDate n rfl
    | text s =>
      cases kind with
      | numeric =>
        cases h
        exact .notNumber s rfl
      | string => cases h
      | date =>
        simp only [coerce] at h
        split at h
        next => cases h
        next hread =>
          cases h
          exact .noSuchDate rfl hread
  · intro h
    cases h with
    | notText _ hkind | notDate _ hkind | notNumber _ hkind => rw [hkind, coerce]
    | noSuchDate hkind hvalue => simp only [hkind, coerce, hvalue]

/-- It has a cell exactly where it fits the kind. -/
theorem exists_coerce_iff {value : Literal} :
    (∃ cell, coerce value left.kind = .ok cell) ↔
      Comparand.Fits heading left (.literal value) := by
  constructor
  · rintro ⟨cell, h⟩
    obtain ⟨name, kind⟩ := left
    cases value with
    | number n =>
      cases kind with
      | numeric => exact .number n rfl
      | string => cases h
      | date => cases h
    | text s =>
      cases kind with
      | numeric => cases h
      | string => exact .text s rfl
      | date =>
        simp only [coerce] at h
        split at h
        next day hread => exact .date rfl hread
        next => cases h
  · intro h
    cases h with
    | number n hkind => exact ⟨.number n, by rw [hkind, coerce]⟩
    | text s hkind => exact ⟨.text s, by rw [hkind, coerce]⟩
    | @date _ day hkind hvalue => exact ⟨.date day, by simp only [hkind, coerce, hvalue]⟩

/-- The faults of a right-hand side: its column is unknown, or it clashes with the column on the
left. -/
theorem of_resolve_eq_error (h : resolve heading left comparand = .error fault) :
    (∃ name, comparand = .column name ∧ name ∉ heading.names ∧ fault = .unknownColumn name) ∨
      ∃ mismatch, comparand.Clashes heading left mismatch ∧ fault = .illTyped mismatch := by
  cases comparand with
  | column name =>
    rcases bind_eq_error.mp h with hfind | ⟨⟨index, right⟩, hfind, hcompare⟩
    · obtain ⟨hname, rfl⟩ := Heading.find_eq_error.mp hfind
      exact Or.inl ⟨name, rfl, hname, rfl⟩
    · obtain ⟨hright, rfl⟩ := Heading.mem_of_find hfind
      dsimp only at hcompare
      split at hcompare
      next => cases hcompare
      next hkind => exact Or.inr ⟨_, .columns hright hkind, (Except.error.inj hcompare).symm⟩
  | literal value =>
    rw [resolve] at h
    split at h
    next => cases h
    next mismatch hcoerce =>
      exact Or.inr ⟨mismatch, coerce_eq_error.mp hcoerce, (Except.error.inj h).symm⟩

/-- Where names are distinct, these are faults indeed. -/
theorem resolve_eq_error (hnodup : heading.names.Nodup) :
    resolve heading left comparand = .error fault ↔
      (∃ name, comparand = .column name ∧ name ∉ heading.names ∧ fault = .unknownColumn name) ∨
        ∃ mismatch, comparand.Clashes heading left mismatch ∧ fault = .illTyped mismatch := by
  constructor
  · exact of_resolve_eq_error
  · rintro (⟨name, rfl, hname, rfl⟩ | ⟨mismatch, hclash, rfl⟩)
    · exact bind_eq_error.mpr (Or.inl (Heading.find_eq_error.mpr ⟨hname, rfl⟩))
    · cases comparand with
      | column name =>
        cases hclash with
        | @columns right hright hkind =>
          obtain ⟨index, hfind⟩ := Heading.find_eq_ok_of_mem hnodup hright
          exact bind_eq_error.mpr (Or.inr ⟨(index, right), hfind, if_neg hkind⟩)
      | literal value => rw [resolve, coerce_eq_error.mpr hclash]

/-- The right side of a condition is resolved just if it fits the column on the left. -/
theorem exists_resolve_iff (hnodup : heading.names.Nodup) :
    (∃ side, resolve heading left comparand = .ok side) ↔ comparand.Fits heading left := by
  cases comparand with
  | column name =>
    simp only [resolve_column_eq_ok]
    constructor
    · rintro ⟨side, index, column, hfind, hkind, -⟩
      obtain ⟨hcolumn, rfl⟩ := Heading.mem_of_find hfind
      exact .column hcolumn hkind
    · intro h
      cases h with
      | @column right hright hkind =>
        obtain ⟨index, hfind⟩ := Heading.find_eq_ok_of_mem hnodup hright
        exact ⟨_, index, right, hfind, hkind, rfl⟩
  | literal value =>
    simp only [resolve_literal_eq_ok, ← exists_coerce_iff]
    constructor
    · rintro ⟨side, cell, hcell, -⟩
      exact ⟨cell, hcell⟩
    · rintro ⟨cell, hcell⟩
      exact ⟨_, cell, hcell, rfl⟩

/-! ## Selections -/

variable {a : Relation} {name : String} {comparator : Comparator}

/-- The faults of a selection: the name on its left is unknown, or else the right-hand side cannot
be resolved. -/
theorem of_select_eq_error (h : a.select name comparator comparand = .error fault) :
    (name ∉ a.heading.names ∧ fault = .unknownColumn name) ∨
      ∃ left ∈ a.heading, left.name = name ∧
        ((∃ right, comparand = .column right ∧ right ∉ a.heading.names ∧
            fault = .unknownColumn right) ∨
          ∃ mismatch, comparand.Clashes a.heading left mismatch ∧ fault = .illTyped mismatch) := by
  rcases bind_eq_error.mp h with h | ⟨⟨index, left⟩, hfind, h⟩
  · exact Or.inl (Heading.find_eq_error.mp h)
  · obtain ⟨hleft, hname⟩ := Heading.mem_of_find hfind
    rcases bind_eq_error.mp h with h | ⟨side, -, h⟩
    · exact Or.inr ⟨left, hleft, hname, of_resolve_eq_error h⟩
    · cases h

/-- A selection fails only on an unknown name or an ill-typed condition. -/
theorem exists_of_select_eq_error (h : a.select name comparator comparand = .error fault) :
    (∃ name, fault = .unknownColumn name) ∨ ∃ mismatch, fault = .illTyped mismatch := by
  rcases of_select_eq_error h with
    ⟨-, rfl⟩ | ⟨left, -, -, ⟨right, -, -, rfl⟩ | ⟨mismatch, -, rfl⟩⟩
  · exact Or.inl ⟨name, rfl⟩
  · exact Or.inl ⟨right, rfl⟩
  · exact Or.inr ⟨mismatch, rfl⟩

/-- A selection of a well-formed relation fails on the name on its left, then on that on its right,
if they are unknown, and after that on a mismatch of the two sides. -/
theorem WellFormed.select_eq_error (ha : a.WellFormed) :
    a.select name comparator comparand = .error fault ↔
      (name ∉ a.heading.names ∧ fault = .unknownColumn name) ∨
        ∃ left ∈ a.heading, left.name = name ∧
          ((∃ right, comparand = .column right ∧ right ∉ a.heading.names ∧
              fault = .unknownColumn right) ∨
            ∃ mismatch, comparand.Clashes a.heading left mismatch ∧
              fault = .illTyped mismatch) := by
  constructor
  · exact of_select_eq_error
  · rintro (h | ⟨left, hleft, rfl, h⟩)
    · exact bind_eq_error.mpr (Or.inl (Heading.find_eq_error.mpr h))
    · obtain ⟨index, hfind⟩ := Heading.find_eq_ok_of_mem ha.nodup hleft
      have hresolve := (resolve_eq_error ha.nodup).mpr h
      exact bind_eq_error.mpr (Or.inr ⟨(index, left), hfind, bind_eq_error.mpr (Or.inl hresolve)⟩)

/-- A selection exists exactly if its left-hand side is known and its right-hand side fits. -/
theorem WellFormed.exists_select_iff (ha : a.WellFormed) :
    (∃ b, a.select name comparator comparand = .ok b) ↔
      ∃ left ∈ a.heading, left.name = name ∧ comparand.Fits a.heading left := by
  constructor
  · rintro ⟨b, h⟩
    obtain ⟨index, left, side, hfind, hside, -⟩ := select_eq_ok.mp h
    obtain ⟨hleft, hname⟩ := Heading.mem_of_find hfind
    exact ⟨left, hleft, hname, (exists_resolve_iff ha.nodup).mp ⟨side, hside⟩⟩
  · rintro ⟨left, hleft, rfl, h⟩
    obtain ⟨index, hfind⟩ := Heading.find_eq_ok_of_mem ha.nodup hleft
    obtain ⟨side, hside⟩ := (exists_resolve_iff ha.nodup).mpr h
    exact ⟨_, select_eq_ok.mpr ⟨index, left, side, hfind, hside, rfl⟩⟩

end Relation

end RelationScript
