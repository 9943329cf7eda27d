/-
# Texts that name days

Which texts the reader of dates accepts, told without it.  It asks for more than eight digits and
two hyphens only where nothing else can be meant: there may be blanks before the year, the month and
the day, a sign before the year, and fewer digits, or with a sign more.

* `Date.Spells` : the texts that name a day;
* `Date.IsPlain` : four digits, two and two;
* `Date.readChars?_eq_some_iff` : the reader accepts the texts that name a day;
* `Date.Spells.isPlain_iff` : the plain texts are those that the writer puts down in four digits.
-/
import RelationScript.Proofs.Calendar.Writing
import RelationScript.Proofs.Decimal.Numerals

namespace RelationScript

/-! ## Digits and their value -/

/-- Digits with the same value are the same. -/
theorem Text.digitValue_injective {c d : Char} (hc : c.isDigit = true) (hd : d.isDigit = true)
    (h : digitValue c = digitValue d) : c = d := by
  have hfirst := toNat_of_isDigit hc
  have hsecond := toNat_of_isDigit hd
  have hzero : '0'.toNat = 0x30 := rfl
  unfold digitValue at h
  exact Char.toNat_inj.mp (by omega)

/-- Of each length there is one run of digits for a number. -/
theorem Text.eq_of_digitsValue_eq {cs ds : List Char} (hcs : ∀ c ∈ cs, c.isDigit = true)
    (hds : ∀ d ∈ ds, d.isDigit = true) (hlength : cs.length = ds.length)
    (h : digitsValue cs = digitsValue ds) : cs = ds := by
  induction cs generalizing ds with
  | nil => exact (List.length_eq_zero_iff.mp hlength.symm).symm
  | cons c cs ih =>
    cases ds with
    | nil => cases hlength
    | cons d ds =>
      rw [List.forall_mem_cons] at hcs hds
      replace hlength : cs.length = ds.length := Nat.succ.inj hlength
      have hbound := digitsValue_lt hcs.2
      have hbound' := digitsValue_lt hds.2
      rw [digitsValue_cons, digitsValue_cons, hlength] at h
      rw [hlength] at hbound
      -- The digits behind are worth less than one of the first, so the first ones are alike.
      have hfirst : digitValue c = digitValue d := by
        rcases Nat.lt_trichotomy (digitValue c) (digitValue d) with hlt | heq | hlt
        · have hstep := Nat.mul_le_mul_right (tenTo ds.length) (Nat.succ_le_of_lt hlt)
          rw [Nat.succ_mul] at hstep
          omega
        · exact heq
        · have hstep := Nat.mul_le_mul_right (tenTo ds.length) (Nat.succ_le_of_lt hlt)
          rw [Nat.succ_mul] at hstep
          omega
      obtain rfl := digitValue_injective hcs.1 hds.1 hfirst
      rw [ih hcs.2 hds.2 hlength (by omega)]

namespace Date

/-! ## Texts of a day -/

/-- The characters write a year: any number of digits behind a sign, or at most four. -/
inductive IsYear : List Char → ℤ → Prop
  | negative {digits : List Char} (h : Text.IsDigits digits) :
      IsYear ('-' :: digits) (-(Text.digitsValue digits : ℤ))
  | positive {digits : List Char} (h : Text.IsDigits digits) :
      IsYear ('+' :: digits) (Text.digitsValue digits)
  | unsigned {digits : List Char} (h : Text.IsDigits digits) (hlength : digits.length ≤ 4) :
      IsYear digits (Text.digitsValue digits)

/-- The characters write a month or a day of the month: one digit or two. -/
inductive IsPart : List Char → ℕ → Prop
  | intro {digits : List Char} (h : Text.IsDigits digits) (hlength : digits.length ≤ 2) :
      IsPart digits (Text.digitsValue digits)

/-- The characters name the day: its year, month and day with hyphens between them, and before each
of the three blanks or none. -/
inductive Spells (d : Date) : List Char → Prop
  | intro {gap₁ gap₂ gap₃ year month day : List Char}
      (hgap₁ : ∀ c ∈ gap₁, Text.isBlank c = true) (hyear : IsYear year d.year)
      (hgap₂ : ∀ c ∈ gap₂, Text.isBlank c = true) (hmonth : IsPart month d.month)
      (hgap₃ : ∀ c ∈ gap₃, Text.isBlank c = true) (hday : IsPart day d.day) :
      Spells d (gap₁ ++ (year ++ '-' :: (gap₂ ++ (month ++ '-' :: (gap₃ ++ day)))))

/-- The characters are four digits, two and two with hyphens between them, for these numbers. -/
inductive IsPlain : List Char → ℤ → ℕ → ℕ → Prop
  | intro {year month day : List Char} (hyear : Text.IsDigits year) (hyear4 : year.length = 4)
      (hmonth : Text.IsDigits month) (hmonth2 : month.length = 2) (hday : Text.IsDigits day)
      (hday2 : day.length = 2) :
      IsPlain (year ++ '-' :: (month ++ '-' :: day)) (Text.digitsValue year)
        (Text.digitsValue month) (Text.digitsValue day)

/-- A year begins with a sign or a digit. -/
theorem IsYear.exists_cons {cs : List Char} {year : ℤ} (h : IsYear cs year) :
    ∃ c more, cs = c :: more ∧ Text.isBlank c = false := by
  cases h with
  | negative => exact ⟨'-', _, rfl, by decide⟩
  | positive => exact ⟨'+', _, rfl, by decide⟩
  | unsigned h =>
    obtain ⟨c, more, rfl, hc⟩ := h.exists_cons
    exact ⟨c, more, rfl, Text.isBlank_of_isDigit hc⟩

/-! ## Reading what names a day -/

theorem trimStart_append {gap cs : List Char} (hgap : ∀ c ∈ gap, Text.isBlank c = true)
    (hcs : ∃ c more, cs = c :: more ∧ Text.isBlank c = false) :
    Text.trimStart (gap ++ cs) = cs := by
  obtain ⟨c, more, rfl, hc⟩ := hcs
  refine dropWhile_append_of_stop hgap ?_
  rintro d ⟨⟩
  exact hc

/-- A year is read behind blanks and up to the first character that is no digit. -/
theorem readYear?_append {gap cs rest : List Char} {year : ℤ}
    (hgap : ∀ c ∈ gap, Text.isBlank c = true) (h : IsYear cs year)
    (hrest : ∀ c ∈ rest.head?, c.isDigit = false) :
    readYear? (gap ++ (cs ++ rest)) = some (year, rest) := by
  have hstart : ∃ c more, cs ++ rest = c :: more ∧ Text.isBlank c = false := by
    obtain ⟨c, more, rfl, hc⟩ := h.exists_cons
    exact ⟨c, more ++ rest, rfl, hc⟩
  -- The blanks are left out at the start, so the reader is where it would be without them.
  have htrim : readYear? (gap ++ (cs ++ rest)) = readYear? (cs ++ rest) := by
    rw [readYear?, readYear?, trimStart_append hgap hstart]
    obtain ⟨c, more, hcons, hc⟩ := hstart
    rw [hcons, Text.trimStart_cons hc]
  rw [htrim]
  cases h with
  | @negative digits hdigits =>
    rw [List.cons_append, readYear?_hyphen, readNumber?_append hdigits (by simp) (Or.inr hrest)]
    rfl
  | @positive digits hdigits =>
    rw [List.cons_append, readYear?_plus, readNumber?_append hdigits (by simp) (Or.inr hrest)]
    rfl
  | unsigned hdigits hlength =>
    have hread := readNumber?_append hdigits hlength (Or.inr hrest)
    obtain ⟨c, more, rfl, hc⟩ := hdigits.exists_cons
    rw [List.cons_append] at hread ⊢
    rw [readYear?_of_isDigit hc, hread]
    rfl

/-- The number of a month or a day is read behind blanks and up to the first character that is no
digit. -/
theorem readPart?_append {gap cs rest : List Char} {n : ℕ}
    (hgap : ∀ c ∈ gap, Text.isBlank c = true) (h : IsPart cs n)
    (hrest : ∀ c ∈ rest.head?, c.isDigit = false) :
    readPart? (gap ++ (cs ++ rest)) = some (n, rest) := by
  obtain ⟨hdigits, hlength⟩ := h
  have hread := readNumber?_append hdigits hlength (Or.inr hrest)
  obtain ⟨c, more, hcons, hc⟩ := hdigits.exists_cons
  have hstart : ∃ c more, cs ++ rest = c :: more ∧ Text.isBlank c = false :=
    ⟨c, more ++ rest, by rw [hcons, List.cons_append], Text.isBlank_of_isDigit hc⟩
  rw [readPart?, trimStart_append hgap hstart, hread]

/-- Where year, month and day are written with hyphens between them, the calendar decides. -/
theorem readChars?_append {gap₁ gap₂ gap₃ year month day : List Char} {y : ℤ} {m d : ℕ}
    (hgap₁ : ∀ c ∈ gap₁, Text.isBlank c = true) (hyear : IsYear year y)
    (hgap₂ : ∀ c ∈ gap₂, Text.isBlank c = true) (hmonth : IsPart month m)
    (hgap₃ : ∀ c ∈ gap₃, Text.isBlank c = true) (hday : IsPart day d) :
    readChars? (gap₁ ++ (year ++ '-' :: (gap₂ ++ (month ++ '-' :: (gap₃ ++ day))))) =
      of? y m d := by
  have hhyphen : ∀ (rest : List Char), ∀ c ∈ ('-' :: rest).head?, c.isDigit = false := by
    rintro rest c ⟨⟩
    decide
  have hlast := @readPart?_append gap₃ day [] d hgap₃ hday (by simp)
  rw [List.append_nil] at hlast
  unfold readChars?
  rw [readYear?_append hgap₁ hyear (hhyphen _)]
  simp [afterHyphen?, readPart?_append hgap₂ hmonth (hhyphen _), hlast]

/-! ## What is read names a day -/

/-- What is read as a number are its digits, no more than the width allows. -/
theorem of_readNumber? {width n : ℕ} {cs rest : List Char}
    (h : readNumber? width cs = some (n, rest)) :
    ∃ digits, Text.IsDigits digits ∧ digits.length ≤ width ∧ n = Text.digitsValue digits ∧
      cs = digits ++ rest := by
  dsimp only [readNumber?] at h
  split at h
  next => cases h
  next hne =>
    obtain ⟨rfl, rfl⟩ := Prod.mk.inj (Option.some.inj h)
    have hprefix : (cs.take width).takeWhile Char.isDigit <+: cs :=
      (List.takeWhile_prefix _).trans (List.take_prefix width cs)
    have hlength := (List.takeWhile_prefix (p := Char.isDigit) (l := cs.take width)).length_le
    rw [List.length_take] at hlength
    exact ⟨_, ⟨by simpa using hne, fun c hc => List.mem_takeWhile_imp hc⟩, by omega, rfl,
      (List.prefix_iff_eq_append.mp hprefix).symm⟩

/-- A number that is read as something else has digits of its own. -/
theorem of_map_readNumber? {value : ℕ → ℤ} {width : ℕ} {year : ℤ} {cs rest : List Char}
    (h : (readNumber? width cs).map (fun read => (value read.1, read.2)) = some (year, rest)) :
    ∃ digits, Text.IsDigits digits ∧ digits.length ≤ width ∧
      year = value (Text.digitsValue digits) ∧ cs = digits ++ rest := by
  obtain ⟨⟨n, rest'⟩, hread, hyear⟩ := Option.map_eq_some_iff.mp h
  obtain ⟨rfl, rfl⟩ := Prod.mk.inj hyear
  obtain ⟨digits, hdigits, hlength, rfl, hmore⟩ := of_readNumber? hread
  exact ⟨digits, hdigits, hlength, rfl, hmore⟩

/-- What is read as a year is one, behind blanks. -/
theorem of_readYear? {year : ℤ} {cs rest : List Char} (h : readYear? cs = some (year, rest)) :
    ∃ gap written, (∀ c ∈ gap, Text.isBlank c = true) ∧ IsYear written year ∧
      cs = gap ++ (written ++ rest) := by
  have hcut := List.takeWhile_append_dropWhile (p := Text.isBlank) (l := cs)
  have hgap : ∀ c ∈ cs.takeWhile Text.isBlank, Text.isBlank c = true :=
    fun c hc => List.mem_takeWhile_imp hc
  unfold readYear? Text.trimStart at h
  split at h
  next more hmore =>
    obtain ⟨digits, hdigits, -, rfl, rfl⟩ := @of_map_readNumber? (fun n => -(n : ℤ)) _ _ _ _ h
    exact ⟨_, _, hgap, .negative hdigits, by rw [List.cons_append, ← hmore, hcut]⟩
  next more hmore =>
    obtain ⟨digits, hdigits, -, rfl, rfl⟩ := @of_map_readNumber? (fun n => (n : ℤ)) _ _ _ _ h
    exact ⟨_, _, hgap, .positive hdigits, by rw [List.cons_append, ← hmore, hcut]⟩
  next =>
    obtain ⟨digits, hdigits, hlength, rfl, hmore⟩ :=
      @of_map_readNumber? (fun n => (n : ℤ)) _ _ _ _ h
    exact ⟨_, _, hgap, .unsigned hdigits hlength, by rw [← hmore, hcut]⟩

theorem of_readPart? {n : ℕ} {cs rest : List Char} (h : readPart? cs = some (n, rest)) :
    ∃ gap written, (∀ c ∈ gap, Text.isBlank c = true) ∧ IsPart written n ∧
      cs = gap ++ (written ++ rest) := by
  obtain ⟨digits, hdigits, hlength, rfl, hmore⟩ := of_readNumber? h
  refine ⟨cs.takeWhile Text.isBlank, digits, fun c hc => List.mem_takeWhile_imp hc,
    .intro hdigits hlength, ?_⟩
  rw [← hmore, Text.trimStart, List.takeWhile_append_dropWhile]

theorem of?_eq_some {y : ℤ} {m n : ℕ} {d : Date} :
    of? y m n = some d ↔ ∃ h : IsDay y m n, ⟨y, m, n, h⟩ = d := by
  unfold of?
  split
  next h => simp [h]
  next h => simp [h]

/-- A hyphen has to stand at once. -/
theorem afterHyphen?_eq_some {cs rest : List Char} :
    afterHyphen? cs = some rest ↔ cs = '-' :: rest := by
  unfold afterHyphen?
  split
  next more => simp
  next hne =>
    constructor
    · intro h
      cases h
    · intro h
      exact absurd h (hne rest)

/-- What is read as a date spells it. -/
theorem spells_of_readChars? {cs : List Char} {d : Date} (h : readChars? cs = some d) :
    Spells d cs := by
  -- Stage by stage: the year, a hyphen, the month, a hyphen, the day.
  obtain ⟨⟨y, rest₁⟩, hyear, hread⟩ := Option.bind_eq_some_iff.mp h
  obtain ⟨_, hhyphen₁, hread⟩ := Option.bind_eq_some_iff.mp hread
  obtain ⟨⟨m, rest₂⟩, hmonth, hread⟩ := Option.bind_eq_some_iff.mp hread
  obtain ⟨_, hhyphen₂, hread⟩ := Option.bind_eq_some_iff.mp hread
  obtain ⟨⟨n, rest₃⟩, hday, hread⟩ := Option.bind_eq_some_iff.mp hread
  obtain ⟨rfl, hcalendar⟩ : rest₃ = [] ∧ of? y m n = some d := by simpa using hread
  obtain ⟨_, rfl⟩ := of?_eq_some.mp hcalendar
  obtain ⟨gap₁, year, hgap₁, hisYear, rfl⟩ := of_readYear? hyear
  obtain ⟨gap₂, month, hgap₂, hisMonth, rfl⟩ := of_readPart? hmonth
  obtain ⟨gap₃, day, hgap₃, hisDay, rfl⟩ := of_readPart? hday
  rw [afterHyphen?_eq_some.mp hhyphen₁, afterHyphen?_eq_some.mp hhyphen₂, List.append_nil]
  exact .intro hgap₁ hisYear hgap₂ hisMonth hgap₃ hisDay

/-- **The reader accepts the texts that name a day**, and yields that day. -/
theorem readChars?_eq_some_iff {cs : List Char} {d : Date} :
    readChars? cs = some d ↔ Spells d cs := by
  constructor
  · exact spells_of_readChars?
  · rintro ⟨hgap₁, hyear, hgap₂, hmonth, hgap₃, hday⟩
    rw [readChars?_append hgap₁ hyear hgap₂ hmonth hgap₃ hday, of?_fields]

/-- **A text is read as a date exactly if it spells the date.** -/
theorem read?_eq_some_iff {s : String} {d : Date} : read? s = some d ↔ Spells d s.toList :=
  readChars?_eq_some_iff

theorem read?_eq_none_iff {s : String} : read? s = none ↔ ¬ ∃ d, Spells d s.toList := by
  rw [Option.eq_none_iff_forall_ne_some, not_exists]
  exact forall_congr' fun d => not_congr read?_eq_some_iff

/-- A text names one day at most. -/
theorem Spells.unique {cs : List Char} {d e : Date} (hd : Spells d cs) (he : Spells e cs) :
    d = e := by
  have hread := readChars?_eq_some_iff.mpr hd
  rw [readChars?_eq_some_iff.mpr he] at hread
  exact (Option.some.inj hread).symm

/-! ## Plain texts -/

/-- A plain text names the day with its numbers, if the calendar has it. -/
theorem IsPlain.readChars?_eq {cs : List Char} {y : ℤ} {m n : ℕ} (h : IsPlain cs y m n) :
    readChars? cs = of? y m n := by
  obtain ⟨hyear, hyear4, hmonth, hmonth2, hday, hday2⟩ := h
  exact @readChars?_append [] [] [] _ _ _ _ _ _ (by simp) (.unsigned hyear hyear4.le) (by simp)
    (.intro hmonth hmonth2.le) (by simp) (.intro hday hday2.le)

/-- A text of four, two and two digits spells a date if these are a day. -/
theorem IsPlain.exists_spells_iff {cs : List Char} {y : ℤ} {m n : ℕ} (h : IsPlain cs y m n) :
    (∃ d, Spells d cs) ↔ IsDay y m n := by
  simp only [← readChars?_eq_some_iff, h.readChars?_eq, of?_eq_some]
  constructor
  · rintro ⟨d, hday, -⟩
    exact hday
  · intro hday
    exact ⟨_, hday, rfl⟩

/-- A year of four digits is written in them. -/
theorem yearChars_of_length {year : List Char} (h : Text.IsDigits year) (hlength : year.length = 4) :
    yearChars (Text.digitsValue year) = year := by
  have hbound : Text.digitsValue year < 10 ^ 4 := by
    have hlt := Text.digitsValue_lt h.2
    rwa [hlength, Text.tenTo_eq_pow] at hlt
  have hpadded := Text.isDigits_paddedDigits 4 (Text.digitsValue year)
  unfold yearChars
  dsimp only
  rw [if_neg (by omega), if_neg (by omega), Int.natAbs_natCast]
  refine Text.eq_of_digitsValue_eq hpadded.2 h.2 ?_ (Text.digitsValue_paddedDigits _ _)
  rw [Text.length_paddedDigits (by decide) hbound, hlength]

theorem fixedDigits_of_length {part : List Char} (h : Text.IsDigits part) (hlength : part.length = 2) :
    Text.fixedDigits 2 (Text.digitsValue part) = part := by
  have hbound := Text.digitsValue_lt h.2
  rw [hlength] at hbound
  refine Text.eq_of_digitsValue_eq (Text.isDigits_fixedDigits _ (by decide)).2 h.2 ?_
    (Text.digitsValue_fixedDigits hbound)
  rw [Text.length_fixedDigits, hlength]

/-- A day of a year of four digits is written plainly. -/
theorem isPlain_chars {d : Date} (hlow : 0 ≤ d.year) (hhigh : d.year ≤ 9999) :
    IsPlain d.chars d.year d.month d.day := by
  have hbound : d.year.natAbs < 10 ^ 4 := by omega
  have hyear : yearChars d.year = Text.paddedDigits 4 d.year.natAbs := by
    unfold yearChars
    dsimp only
    rw [if_neg (by omega), if_neg (by omega)]
  have hplain := IsPlain.intro (Text.isDigits_paddedDigits 4 d.year.natAbs)
    (Text.length_paddedDigits (by decide) hbound)
    (Text.isDigits_fixedDigits d.month (show 0 < 2 by decide)) (Text.length_fixedDigits 2 d.month)
    (Text.isDigits_fixedDigits d.day (show 0 < 2 by decide)) (Text.length_fixedDigits 2 d.day)
  rw [Text.digitsValue_paddedDigits, Text.digitsValue_fixedDigits (part_lt d).1,
    Text.digitsValue_fixedDigits (part_lt d).2, Int.natAbs_of_nonneg hlow, ← hyear] at hplain
  unfold chars
  rwa [List.append_assoc]

/-- **The plain texts of days** are those that days of four-digit years are written in. -/
theorem Spells.isPlain_iff {cs : List Char} {d : Date} (h : Spells d cs) :
    (∃ y m n, IsPlain cs y m n) ↔ d.chars = cs ∧ 0 ≤ d.year ∧ d.year ≤ 9999 := by
  constructor
  · rintro ⟨y, m, n, hplain⟩
    have hread := readChars?_eq_some_iff.mpr h
    rw [hplain.readChars?_eq] at hread
    obtain ⟨_, rfl⟩ := of?_eq_some.mp hread
    obtain ⟨hyear, hyear4, hmonth, hmonth2, hday, hday2⟩ := hplain
    have hbound := Text.digitsValue_lt hyear.2
    rw [hyear4, Text.tenTo_eq_pow] at hbound
    refine ⟨?_, by dsimp only; omega, by dsimp only; omega⟩
    unfold chars
    dsimp only
    rw [yearChars_of_length hyear hyear4, fixedDigits_of_length hmonth hmonth2,
      fixedDigits_of_length hday hday2, List.append_assoc, List.cons_append]
  · rintro ⟨rfl, hlow, hhigh⟩
    exact ⟨_, _, _, isPlain_chars hlow hhigh⟩

end Date

end RelationScript
