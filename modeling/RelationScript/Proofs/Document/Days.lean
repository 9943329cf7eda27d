/-
# Texts that stand for a day

Where a day is asked for, in a condition on a column of dates and in the cells of such a column in a
document, the texts that name a day are accepted and all others are rejected.  Each day is named by
one text of four digits, two and two, and by other texts besides.

* `Json.HasDayText` : documents with a text under a column of dates;
* `DayText` : what becomes of a text where a day is asked for;
* `dayText` : it does of every text.
-/
import RelationScript.Proofs.Calendar.Spelling
import RelationScript.Proofs.Document.Loading
import RelationScript.Proofs.Relation.Faults

namespace RelationScript

open Json (AreCells IsCell IsMember IsRow MemberFault RelationFault RowFault)

/-! ## Where a day is asked for -/

/-- In the relation `name` of the document, the row with the index has the text under a column of
dates.  All else is in order: the other cells of the row, the other rows and the other relations. -/
inductive Json.HasDayText (s name : String) (index : ℕ) : Json → Prop
  | intro {before after : List (String × Json)} {body : Json} {front back : Heading}
      {column : Column} {good rest left right : List Json} {leftCells rightCells : Row}
      (hbefore : ∀ member ∈ before, IsMember member.1 member.2)
      (hafter : ∀ member ∈ after, IsMember member.1 member.2) (hname : Text.isName name = true)
      (hheading : body.IsHeading (front ++ column :: back)) (hkind : column.kind = .date)
      (hrows : body.HasRows (good ++ .array (left ++ .string s :: right) :: rest))
      (hgood : ∀ item ∈ good, ∃ row, IsRow (front ++ column :: back) item row)
      (hindex : good.length = index)
      (hrest : ∀ item ∈ rest, ∃ row, IsRow (front ++ column :: back) item row)
      (hleft : AreCells front left leftCells) (hright : AreCells back right rightCells) :
      HasDayText s name index (.object (before ++ (name, body) :: after))

/-- What becomes of a text where a day is asked for. -/
structure DayText (s : String) : Prop where
  /-- A condition on a column of dates accepts it exactly if it names a day. -/
  condition : ∀ (a : Relation) (left : Column) (comparator : Comparator), a.WellFormed →
    left ∈ a.heading → left.kind = .date →
      ((∃ b, a.select left.name comparator (.literal (.text s)) = .ok b) ↔
        ∃ d, Date.Spells d s.toList)
  /-- Otherwise the condition is at fault for it. -/
  conditionFault : ∀ (a : Relation) (left : Column) (comparator : Comparator), a.WellFormed →
    left ∈ a.heading → left.kind = .date → ∀ fault,
      (a.select left.name comparator (.literal (.text s)) = .error fault ↔
        (¬ ∃ d, Date.Spells d s.toList) ∧ fault = .illTyped (.noSuchDate (.text s)))
  /-- A document with the text under a column of dates is accepted exactly if it names a day. -/
  document : ∀ name index json, Json.HasDayText s name index json →
    ((∃ store, Store.ofJson json = .ok store) ↔ ∃ d, Date.Spells d s.toList)
  /-- Otherwise the document is at fault for the row. -/
  documentFault : ∀ name index json, Json.HasDayText s name index json → ∀ fault,
    (Store.ofJson json = .error fault ↔
      (¬ ∃ d, Date.Spells d s.toList) ∧ fault = .badCell name index)
  /-- In both places it stands for the day that it names, and it names one only. -/
  day : ∀ d, Date.Spells d s.toList → Relation.coerce (.text s) .date = .ok (.date d) ∧
    Cell.ofJson? .date (.string s) = some (.date d) ∧ ∀ e, Date.Spells e s.toList → e = d
  /-- Of four digits, two and two, it names a day if the calendar has it. -/
  plain : ∀ y m n, Date.IsPlain s.toList y m n →
    ((∃ d, Date.Spells d s.toList) ↔ Date.IsDay y m n)
  /-- It is such a text exactly if it is shown again unchanged, and with a year of four digits. -/
  unchanged : ∀ d, Date.Spells d s.toList →
    ((∃ y m n, Date.IsPlain s.toList y m n) ↔ d.text = s ∧ 0 ≤ d.year ∧ d.year ≤ 9999)

/-! ## Documents -/

theorem Json.AreCells.append {front back : Heading} {left right : List Json} {row row' : Row}
    (h : AreCells front left row) (h' : AreCells back right row') :
    AreCells (front ++ back) (left ++ right) (row ++ row') := by
  induction h with
  | nil => exact h'
  | cons hcell hmore ih => exact .cons hcell ih

/-- Behind as many cells as the first heading has columns, the cells are those of the second. -/
theorem Json.AreCells.of_append {front back : Heading} {left right : List Json} {row : Row}
    (hlength : left.length = front.length)
    (h : AreCells (front ++ back) (left ++ right) row) : ∃ row', AreCells back right row' := by
  induction front generalizing left row with
  | nil =>
    obtain rfl := List.length_eq_zero_iff.mp hlength
    exact ⟨row, h⟩
  | cons column front ih =>
    cases left with
    | nil => cases hlength
    | cons item left =>
      cases h with
      | cons hcell hmore => exact ih (Nat.succ.inj hlength) hmore

/-- The cells around the text being in order, the row is one exactly if it names a day. -/
theorem exists_areCells_iff {front back : Heading} {column : Column} {left right : List Json}
    {leftCells rightCells : Row} {s : String} (hleft : AreCells front left leftCells)
    (hright : AreCells back right rightCells) (hkind : column.kind = .date) :
    (∃ row, AreCells (front ++ column :: back) (left ++ .string s :: right) row) ↔
      ∃ d, Date.Spells d s.toList := by
  constructor
  · rintro ⟨row, hrow⟩
    obtain ⟨_, hcells⟩ := Json.AreCells.of_append hleft.length_eq hrow
    cases hcells with
    | cons hcell _ =>
      rw [hkind] at hcell
      cases hcell with
      | date hday => exact ⟨_, Date.read?_eq_some_iff.mp hday⟩
  · rintro ⟨d, hd⟩
    have hcell : IsCell column.kind (.string s) (.date d) := by
      rw [hkind]
      exact .date (Date.read?_eq_some_iff.mpr hd)
    exact ⟨_, hleft.append (.cons hcell hright)⟩

/-- A document is accepted if all its members are relations. -/
theorem Store.exists_ofJson_of_forall {members : List (String × Json)}
    (h : ∀ member ∈ members, IsMember member.1 member.2) :
    ∃ store, Store.ofJson (.object members) = .ok store := by
  cases hload : Store.ofJson (.object members) with
  | ok store => exact ⟨store, rfl⟩
  | error fault =>
    obtain ⟨before, member, after, rfl, -, hfault⟩ := Store.ofJson_eq_error.mp hload
    exact absurd (h member (by simp)) hfault.not_isMember

namespace Json.HasDayText

variable {s name : String} {index : ℕ} {json : Json}

/-- A document whose one day is a proper date loads. -/
theorem exists_ofJson (h : HasDayText s name index json) (hday : ∃ d, Date.Spells d s.toList) :
    ∃ store, Store.ofJson json = .ok store := by
  obtain ⟨hbefore, hafter, hname, hheading, hkind, hrows, hgood, -, hrest, hleft, hright⟩ := h
  obtain ⟨row, hrow⟩ := (exists_areCells_iff hleft hright hkind).mpr hday
  obtain ⟨rows, hall⟩ := exists_forall₂ (List.forall_mem_append.mpr
    ⟨hgood, List.forall_mem_cons.mpr ⟨⟨row, .intro hrow⟩, hrest⟩⟩)
  obtain ⟨schema, hschema, -⟩ := hheading.columns
  have hrelation : Json.IsRelation _ ⟨_, rows⟩ :=
    ⟨Json.exists_object_of_member? hschema, hheading, _, hrows, hall⟩
  exact Store.exists_ofJson_of_forall (List.forall_mem_append.mpr
    ⟨hbefore, List.forall_mem_cons.mpr ⟨⟨hname, _, hrelation⟩, hafter⟩⟩)

theorem ofJson_eq_badCell (h : HasDayText s name index json) (hday : ¬ ∃ d, Date.Spells d s.toList) :
    Store.ofJson json = .error (.badCell name index) := by
  obtain ⟨hbefore, -, hname, hheading, hkind, hrows, hgood, rfl, -, hleft, hright⟩ := h
  rw [← exists_areCells_iff hleft hright hkind, not_exists] at hday
  refine Store.ofJson_eq_error.mpr ⟨_, _, _, rfl, hbefore, .body hname ?_⟩
  refine .row hheading hrows hgood (.cell ?_ hday)
  rw [List.length_append, List.length_append, hleft.length_eq, List.length_cons, List.length_cons,
    hright.length_eq]

/-- Whether a document loads is decided by its one day. -/
theorem exists_ofJson_iff (h : HasDayText s name index json) :
    (∃ store, Store.ofJson json = .ok store) ↔ ∃ d, Date.Spells d s.toList := by
  constructor
  · rintro ⟨store, hstore⟩
    by_contra hday
    rw [h.ofJson_eq_badCell hday] at hstore
    cases hstore
  · exact h.exists_ofJson

end Json.HasDayText

/-! ## Conditions -/

namespace Relation.WellFormed

variable {a : Relation} {left : Column} {comparator : Comparator} {s : String}

/-- A date column is compared with a text just if the text is a proper date. -/
theorem exists_select_day_iff (ha : a.WellFormed) (hleft : left ∈ a.heading)
    (hkind : left.kind = .date) :
    (∃ b, a.select left.name comparator (.literal (.text s)) = .ok b) ↔
      ∃ d, Date.Spells d s.toList := by
  rw [ha.exists_select_iff]
  simp only [← Date.read?_eq_some_iff]
  constructor
  · rintro ⟨column, hcolumn, hname, hfits⟩
    obtain rfl := List.inj_on_of_nodup_map ha.nodup hcolumn hleft hname
    cases hfits with
    | text _ hstring =>
      rw [hkind] at hstring
      cases hstring
    | date _ hday => exact ⟨_, hday⟩
  · rintro ⟨d, hd⟩
    exact ⟨left, hleft, rfl, .date hkind hd⟩

theorem select_day_eq_error (ha : a.WellFormed) (hleft : left ∈ a.heading)
    (hkind : left.kind = .date) (hday : ¬ ∃ d, Date.Spells d s.toList) :
    a.select left.name comparator (.literal (.text s)) =
      .error (.illTyped (.noSuchDate (.text s))) :=
  ha.select_eq_error.mpr (Or.inr ⟨left, hleft, rfl, Or.inr
    ⟨_, .noSuchDate hkind (Date.read?_eq_none_iff.mpr hday), rfl⟩⟩)

end Relation.WellFormed

/-! ## Texts of days -/

/-- What yields a value exactly under a condition, and else one fault, has that fault exactly where
the condition fails. -/
theorem eq_error_iff_of_exists_iff {α ε : Type} {outcome : Except ε α} {P : Prop} {only : ε}
    (hok : (∃ a, outcome = .ok a) ↔ P) (herror : ¬ P → outcome = .error only) (fault : ε) :
    outcome = .error fault ↔ ¬ P ∧ fault = only := by
  constructor
  · intro h
    have hnot : ¬ P := by
      rw [← hok, h]
      rintro ⟨_, ⟨⟩⟩
    rw [herror hnot] at h
    exact ⟨hnot, (Except.error.inj h).symm⟩
  · rintro ⟨hnot, rfl⟩
    exact herror hnot

/-- **A text stands for a day exactly if it names one.**  Conditions and documents agree on that, and
they tell of a text that does not.  Of four digits, two and two, a text names the day with these
numbers; another text that names a day is not shown again as it was. -/
theorem dayText (s : String) : DayText s where
  condition := fun a left comparator ha hleft hkind => ha.exists_select_day_iff hleft hkind
  conditionFault := fun a left comparator ha hleft hkind =>
    eq_error_iff_of_exists_iff (ha.exists_select_day_iff hleft hkind)
      (ha.select_day_eq_error hleft hkind)
  document := fun name index json h => h.exists_ofJson_iff
  documentFault := fun name index json h =>
    eq_error_iff_of_exists_iff h.exists_ofJson_iff h.ofJson_eq_badCell
  day := by
    intro d hd
    have hread := Date.read?_eq_some_iff.mpr hd
    refine ⟨?_, ?_, fun e he => he.unique hd⟩
    · simp only [Relation.coerce, hread]
    · simp only [Cell.ofJson?, hread, Option.map_some]
  plain := fun _ _ _ h => h.exists_spells_iff
  unchanged := by
    intro d hd
    rw [hd.isPlain_iff, Date.text, ← String.toList_inj, String.toList_ofList]

/-- A sign, a digit more and a blank are let pass; the day that is named is shown without them. -/
theorem dayText_of_sign :
    let a : Relation := ⟨[⟨"day", .date⟩], []⟩
    let d : Date := ⟨2024, 1, 5, by decide⟩
    a.WellFormed ∧ Date.Spells d "+02024- 1-5".toList ∧
      (∃ b, a.select "day" .equal (.literal (.text "+02024- 1-5")) = .ok b) ∧
        ¬ ∃ y m n, Date.IsPlain "+02024- 1-5".toList y m n := by
  intro a d
  have ha : a.WellFormed := ⟨by decide, by simp [a]⟩
  have hd : Date.Spells d "+02024- 1-5".toList := Date.read?_eq_some_iff.mp (by cbv)
  refine ⟨ha, hd, ?_, ?_⟩
  · exact ((dayText _).condition a ⟨"day", .date⟩ .equal ha (by simp [a]) rfl).mpr ⟨d, hd⟩
  · rw [(dayText _).unchanged d hd]
    rintro ⟨hshown, -⟩
    exact absurd hshown (by decide)

/-- Not only texts of four digits, two and two are accepted. -/
theorem not_forall_isPlain_of_select :
    ¬ ∀ (a : Relation) (left : Column) (comparator : Comparator) (s : String), a.WellFormed →
      left ∈ a.heading → left.kind = .date →
        ((∃ b, a.select left.name comparator (.literal (.text s)) = .ok b) ↔
          ∃ y m n, Date.IsPlain s.toList y m n ∧ Date.IsDay y m n) := by
  intro hall
  let d : Date := ⟨2024, 1, 5, by decide⟩
  have hd : Date.Spells d "2024-1-5".toList := Date.read?_eq_some_iff.mp (by cbv)
  obtain ⟨y, m, n, hplain, -⟩ := (hall ⟨[⟨"day", .date⟩], []⟩ ⟨"day", .date⟩ .equal "2024-1-5"
    ⟨by decide, by simp⟩ (by simp) rfl).mp ⟨⟨[⟨"day", .date⟩], []⟩, by cbv⟩
  obtain ⟨hshown, -⟩ := hd.isPlain_iff.mp ⟨y, m, n, hplain⟩
  exact absurd hshown (by decide)

end RelationScript
