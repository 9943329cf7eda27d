/-
# Dates are read as they are written

A year has a sign wherever four digits do not hold it, and a month and a day have two digits each.
So the reader takes just as many digits for each of them as the writer puts down, in the years
below zero and above 9999 as well.

* `Date.readNumber?_append` : digits are read up to a width or up to the next other character;
* `Date.readYear?_yearChars` : years of any sign and length;
* `Date.read?_text` : the day that the text of a day names.
-/
import RelationScript.Calendar.Reading
import RelationScript.Proofs.Decimal.Writing

namespace RelationScript

namespace Text

/-- A padded number is a run of digits. -/
theorem isDigits_paddedDigits (w n : ℕ) : IsDigits (paddedDigits w n) := by
  constructor
  · intro h
    exact Nat.toDigits_ne_nil (List.append_eq_nil_iff.mp h).2
  · intro c hc
    rcases List.mem_append.mp hc with hc | hc
    · obtain rfl := List.eq_of_mem_replicate hc
      decide
    · exact isDigit_of_mem_toDigits hc

theorem digitsValue_paddedDigits (w n : ℕ) : digitsValue (paddedDigits w n) = n := by
  unfold paddedDigits
  rw [digitsValue_replicate_append, digitsValue_toDigits]

/-- A number that fits its width is padded to it. -/
theorem length_paddedDigits {w n : ℕ} (hw : 0 < w) (h : n < 10 ^ w) :
    (paddedDigits w n).length = w := by
  have hle : (Nat.toDigits 10 n).length ≤ w :=
    (Nat.length_toDigits_le_iff (by decide) hw).mpr h
  unfold paddedDigits
  rw [List.length_append, List.length_replicate]
  omega

/-- A text that starts with no blank is not trimmed at its start. -/
theorem trimStart_cons {c : Char} (h : isBlank c = false) (cs : List Char) :
    trimStart (c :: cs) = c :: cs :=
  List.dropWhile_cons_of_neg (by simp [h])

end Text

namespace Date

/-! ## Numbers -/

/-- Digits are read as one number, if they use up the width or no other digit follows. -/
theorem readNumber?_append {width : ℕ} {digits rest : List Char} (hdigits : Text.IsDigits digits)
    (hwidth : digits.length ≤ width)
    (hstop : digits.length = width ∨ ∀ c ∈ rest.head?, c.isDigit = false) :
    readNumber? width (digits ++ rest) = some (Text.digitsValue digits, rest) := by
  have htake : ((digits ++ rest).take width).takeWhile Char.isDigit = digits := by
    rw [List.take_append, List.take_of_length_le hwidth]
    refine takeWhile_append_of_stop hdigits.2 ?_
    rcases hstop with hstop | hstop
    · rw [hstop, Nat.sub_self, List.take_zero]
      simp
    · intro c hc
      apply hstop c
      rw [Option.mem_def, List.head?_take] at hc
      exact Option.mem_def.mpr (Option.ite_none_left_eq_some.mp hc).2
  unfold readNumber?
  rw [htake, if_neg (by simpa using hdigits.1), List.drop_left]

/-! ## Parts of a date -/

/-- A year behind a hyphen is a negative one. -/
theorem readYear?_hyphen (cs : List Char) :
    readYear? ('-' :: cs) =
      (readNumber? cs.length cs).map fun found => (-(found.1 : ℤ), found.2) := by
  rw [readYear?, Text.trimStart_cons (by decide)]
  rfl

theorem readYear?_plus (cs : List Char) :
    readYear? ('+' :: cs) =
      (readNumber? cs.length cs).map fun found => ((found.1 : ℤ), found.2) := by
  rw [readYear?, Text.trimStart_cons (by decide)]
  rfl

/-- A year that starts with a digit has no sign. -/
theorem readYear?_of_isDigit {c : Char} (h : c.isDigit = true) (cs : List Char) :
    readYear? (c :: cs) =
      (readNumber? 4 (c :: cs)).map fun found => ((found.1 : ℤ), found.2) := by
  rw [readYear?, Text.trimStart_cons (Text.isBlank_of_isDigit h)]
  split
  next heq =>
    obtain ⟨rfl, -⟩ := List.cons.inj heq
    exact absurd h (by decide)
  next heq =>
    obtain ⟨rfl, -⟩ := List.cons.inj heq
    exact absurd h (by decide)
  next => rfl

/-- A year below zero or above 9999 is read with its sign, and any other with its four digits. -/
theorem readYear?_yearChars (year : ℤ) {rest : List Char}
    (hrest : ∀ c ∈ rest.head?, c.isDigit = false) :
    readYear? (yearChars year ++ rest) = some (year, rest) := by
  have hdigits := Text.isDigits_paddedDigits 4 year.natAbs
  -- Behind a sign the width is that of all characters, so only what follows ends the digits.
  have hsigned : readNumber? (Text.paddedDigits 4 year.natAbs ++ rest).length
      (Text.paddedDigits 4 year.natAbs ++ rest) = some (year.natAbs, rest) := by
    rw [readNumber?_append hdigits (by simp) (Or.inr hrest), Text.digitsValue_paddedDigits]
  unfold yearChars
  dsimp only
  by_cases hnegative : year < 0
  · have hyear : -(year.natAbs : ℤ) = year := by omega
    rw [if_pos hnegative, List.cons_append, readYear?_hyphen, hsigned, Option.map_some, hyear]
  · have hyear : (year.natAbs : ℤ) = year := by omega
    rw [if_neg hnegative]
    by_cases hlarge : 9999 < year
    · rw [if_pos hlarge, List.cons_append, readYear?_plus, hsigned, Option.map_some, hyear]
    · have hlength : (Text.paddedDigits 4 year.natAbs).length = 4 :=
        Text.length_paddedDigits (by decide) (by omega)
      have hplain : readNumber? 4 (Text.paddedDigits 4 year.natAbs ++ rest) =
          some (year.natAbs, rest) := by
        rw [readNumber?_append hdigits hlength.le (Or.inl hlength), Text.digitsValue_paddedDigits]
      obtain ⟨c, cs, hcons, hc⟩ := hdigits.exists_cons
      rw [hcons, List.cons_append] at hplain
      rw [if_neg hlarge, hcons, List.cons_append, readYear?_of_isDigit hc, hplain,
        Option.map_some, hyear]

/-- A month and a day are read with their two digits. -/
theorem readPart?_fixedDigits {n : ℕ} (h : n < 100) (rest : List Char) :
    readPart? (Text.fixedDigits 2 n ++ rest) = some (n, rest) := by
  have hdigits := Text.isDigits_fixedDigits n (show 0 < 2 by decide)
  have hlength := Text.length_fixedDigits 2 n
  have hnumber : readNumber? 2 (Text.fixedDigits 2 n ++ rest) = some (n, rest) := by
    rw [readNumber?_append hdigits hlength.le (Or.inl hlength), Text.digitsValue_fixedDigits h]
  obtain ⟨c, cs, hcons, hc⟩ := hdigits.exists_cons
  rw [hcons, List.cons_append] at hnumber ⊢
  rw [readPart?, Text.trimStart_cons (Text.isBlank_of_isDigit hc), hnumber]

theorem of?_fields (d : Date) : of? d.year d.month d.day = some d :=
  dif_pos d.isDay

/-- A month and a day have two digits at most. -/
theorem part_lt (d : Date) : d.month < 100 ∧ d.day < 100 := by
  obtain ⟨-, ⟨-, hmonth⟩, -, hday⟩ := d.isDay
  have hdays : daysInMonth d.year d.month ≤ 31 := by
    unfold daysInMonth
    split
    · split <;> omega
    · split <;> omega
  omega

/-- **Dates are read as they are written**, whatever the sign and the length of the year. -/
theorem read?_text (d : Date) : read? d.text = some d := by
  have hhyphen : ∀ c ∈ ('-' :: Text.fixedDigits 2 d.month ++
      '-' :: Text.fixedDigits 2 d.day).head?, c.isDigit = false := by
    rintro c ⟨⟩
    decide
  have hyear := readYear?_yearChars d.year hhyphen
  have hlast := readPart?_fixedDigits (part_lt d).2 []
  rw [List.append_nil] at hlast
  unfold read? text readChars? chars
  rw [String.toList_ofList, List.append_assoc, hyear]
  simp [afterHyphen?, readPart?_fixedDigits (part_lt d).1, hlast, of?_fields]

end Date

end RelationScript
