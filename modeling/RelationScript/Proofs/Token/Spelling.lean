/-
# How tokens are spelled

Which texts spell a token is said here without the scanner, and so is where a token ends.  The
scanner cuts a token off a text exactly if its spelling comes first and nothing behind it
belongs to it.

* `Token.Spells` : the texts of a token;
* `Token.Stops` : what follows does not extend the token;
* `Token.stops_of_isBlank` : no token goes on over a blank;
* `Token.scan_eq_ok_iff` : the scanner in these terms;
* `Token.Spells.unique`, `Token.Spells.length_le` : a text spells one token at most, and the
  token found is the longest.
-/
import Mathlib
import RelationScript.Token.Span

namespace RelationScript

/-! ## Runs of characters -/

section Runs

variable {p : Char → Bool} {cs rest : List Char}

/-- A run ends before the first character that does not belong to it. -/
theorem takeWhile_append_of_stop (hcs : ∀ c ∈ cs, p c = true)
    (hrest : ∀ c ∈ rest.head?, p c = false) : (cs ++ rest).takeWhile p = cs := by
  rw [List.takeWhile_append_of_pos hcs]
  cases rest with
  | nil => simp
  | cons c rest => simp [hrest c rfl]

/-- A run ends where the first character stands that does not belong to it. -/
theorem dropWhile_append_of_stop (hcs : ∀ c ∈ cs, p c = true)
    (hrest : ∀ c ∈ rest.head?, p c = false) : (cs ++ rest).dropWhile p = rest := by
  rw [List.dropWhile_append_of_pos hcs]
  cases rest with
  | nil => rfl
  | cons c rest => simp [hrest c rfl]

/-- Behind a run no character of it is left. -/
theorem head?_dropWhile (p : Char → Bool) (cs : List Char) :
    ∀ c ∈ (cs.dropWhile p).head?, p c = false := by
  intro c hc
  have hnot := List.head?_dropWhile_not p cs
  rw [Option.mem_def] at hc
  rwa [hc] at hnot

end Runs

namespace Text

/-- A run of decimal digits that is not empty. -/
def IsDigits (cs : List Char) : Prop :=
  cs ≠ [] ∧ ∀ c ∈ cs, c.isDigit = true

/-- Digits are at least one digit. -/
theorem IsDigits.exists_cons {digits : List Char} (h : IsDigits digits) :
    ∃ c cs, digits = c :: cs ∧ c.isDigit = true := by
  obtain ⟨c, cs, rfl⟩ := List.exists_cons_of_ne_nil h.1
  exact ⟨c, cs, rfl, h.2 c List.mem_cons_self⟩

/-- The run of digits from a digit on is a run of at least one. -/
theorem isDigits_takeWhile {c : Char} (cs : List Char) (h : c.isDigit = true) :
    IsDigits ((c :: cs).takeWhile Char.isDigit) := by
  refine ⟨?_, fun d hd => List.mem_takeWhile_imp hd⟩
  rw [List.takeWhile_cons_of_pos h]
  exact List.cons_ne_nil _ _

/-! ## Code points -/

theorem toNat_of_isDigit {c : Char} (h : c.isDigit = true) : 0x30 ≤ c.toNat ∧ c.toNat ≤ 0x39 :=
  Char.isDigit_iff_toNat.mp h

/-- A name starts with a capital, a small letter or an underscore. -/
theorem toNat_of_isNameStart {c : Char} (h : isNameStart c = true) :
    (0x41 ≤ c.toNat ∧ c.toNat ≤ 0x5A) ∨ (0x61 ≤ c.toNat ∧ c.toNat ≤ 0x7A) ∨ c.toNat = 0x5F := by
  simp only [isNameStart, Char.isAlpha, Char.isUpper, Char.isLower, Bool.or_eq_true,
    Bool.and_eq_true, decide_eq_true_eq, UInt32.le_iff_toNat_le, beq_iff_eq] at h
  rcases h with (h | h) | rfl
  · exact Or.inl h
  · exact Or.inr (Or.inl h)
  · exact Or.inr (Or.inr rfl)

/-- Blanks are not among the printing characters of ASCII. -/
theorem toNat_of_isBlank {c : Char} (h : isBlank c = true) : c.toNat < 0x21 ∨ 0x7E < c.toNat := by
  simp only [isBlank, blankRanges, List.any_cons, List.any_nil, Bool.or_eq_true, Bool.and_eq_true,
    decide_eq_true_eq, Bool.or_false] at h
  omega

theorem isBlank_of_printing {c : Char} (hlow : 0x21 ≤ c.toNat) (hhigh : c.toNat ≤ 0x7E) :
    isBlank c = false := by
  by_contra h
  rcases toNat_of_isBlank (Bool.of_not_eq_false h) with h | h <;> omega

/-- Digits are no blanks. -/
theorem isBlank_of_isDigit {c : Char} (h : c.isDigit = true) : isBlank c = false := by
  have hcode := toNat_of_isDigit h
  exact isBlank_of_printing (by omega) (by omega)

theorem isBlank_of_isNameStart {c : Char} (h : isNameStart c = true) : isBlank c = false := by
  have hcode := toNat_of_isNameStart h
  exact isBlank_of_printing (by omega) (by omega)

/-- A name goes on with what it may start with, and with digits. -/
theorem isBlank_of_isNameChar {c : Char} (h : isNameChar c = true) : isBlank c = false := by
  simp only [isNameChar, Char.isAlphanum, Bool.or_eq_true] at h
  rcases h with (halpha | hdigit) | hscore
  · exact isBlank_of_isNameStart (by rw [isNameStart, halpha]; rfl)
  · exact isBlank_of_isDigit hdigit
  · exact isBlank_of_isNameStart (by rw [isNameStart, hscore, Bool.or_true])

/-- Names do not begin with digits. -/
theorem isNameStart_of_isDigit {c : Char} (h : c.isDigit = true) : isNameStart c = false := by
  by_contra hstart
  have hdigit := toNat_of_isDigit h
  have hname := toNat_of_isNameStart (Bool.of_not_eq_false hstart)
  omega

end Text

namespace Token

/-! ## Spellings -/

/-- The digits of a number: a whole part, and behind a point a fraction or none. -/
inductive IsUnsigned : List Char → Prop
  | whole {digits : List Char} (h : Text.IsDigits digits) : IsUnsigned digits
  | fraction {digits fraction : List Char} (h : Text.IsDigits digits)
      (hfraction : Text.IsDigits fraction) : IsUnsigned (digits ++ '.' :: fraction)

/-- A number as scripts write it, `-?[0-9]+(\.[0-9]+)?`. -/
inductive IsNumeral : List Char → Prop
  | unsigned {text : List Char} (h : IsUnsigned text) : IsNumeral text
  | negative {text : List Char} (h : IsUnsigned text) : IsNumeral ('-' :: text)

/-- The one spelling of a token that is a sign. -/
def symbol? : Token → Option (List Char)
  | setOperator operator => some [operator.symbol]
  | times => some ['*']
  | arrow => some ['-', '>']
  | comparator c => some c.symbol.toList
  | openParen => some ['(']
  | closeParen => some [')']
  | openBracket => some ['[']
  | closeBracket => some [']']
  | comma => some [',']
  | dot => some ['.']
  | number _ | Token.text _ | name _ | endOfLine => none

/-- The texts that spell a token.  The end of a line is not spelled. -/
inductive Spells : Token → List Char → Prop
  | number {text : List Char} {value : Decimal} (h : IsNumeral text)
      (hvalue : Decimal.read text = .ok value) : Spells (.number value) text
  | text {content : List Char} (h : '\x27' ∉ content) :
      Spells (.text (String.ofList content)) ('\x27' :: content ++ ['\x27'])
  | name {value : String} (h : Text.isName value = true) : Spells (.name value) value.toList
  | symbol {token : Token} {text : List Char} (h : token.symbol? = some text) : Spells token text

/-- The characters `rest` do not carry a number on: no digit follows, and to a number without a
fraction no point with a digit. -/
def NumberStops (text rest : List Char) : Prop :=
  (∀ c ∈ rest.head?, c.isDigit = false) ∧
    ('.' ∉ text → ∀ d more, rest = '.' :: d :: more → d.isDigit = false)

/-- The characters `rest` do not carry a token on that is spelled `text`. -/
def Stops (token : Token) (text rest : List Char) : Prop :=
  match token with
  | .name _ => ∀ c ∈ rest.head?, Text.isNameChar c = false
  | .number _ => NumberStops text rest
  | .comparator .less | .comparator .greater => rest.head? ≠ some '='
  | _ => True

/-- Nothing carries a token on over a blank or the end of the line. -/
theorem stops_of_isBlank (token : Token) (text : List Char) {rest : List Char}
    (hrest : ∀ c ∈ rest.head?, Text.isBlank c = true) : Stops token text rest := by
  have hclass {p : Char → Bool} (hp : ∀ c, p c = true → Text.isBlank c = false) :
      ∀ c ∈ rest.head?, p c = false := by
    intro c hc
    by_contra hpc
    have hblank := hrest c hc
    rw [hp c (Bool.of_not_eq_false hpc)] at hblank
    cases hblank
  unfold Stops
  split
  · exact hclass fun _ => Text.isBlank_of_isNameChar
  · refine ⟨hclass fun _ => Text.isBlank_of_isDigit, ?_⟩
    rintro _ d more rfl
    exact absurd (hrest '.' rfl) (by decide)
  · exact fun hequals => absurd (hrest '=' hequals) (by decide)
  · exact fun hequals => absurd (hrest '=' hequals) (by decide)
  · trivial

theorem stops_nil (token : Token) (text : List Char) : Stops token text [] :=
  stops_of_isBlank token text (by simp)

/-- What stops a token does so when it is cut off sooner. -/
theorem NumberStops.of_append {text more rest : List Char}
    (h : NumberStops text (more ++ rest)) : NumberStops text more := by
  cases more with
  | nil => exact ⟨by simp, by simp⟩
  | cons c more =>
    refine ⟨h.1, fun htext d more' hmore => ?_⟩
    rw [List.cons.injEq] at hmore
    obtain ⟨rfl, rfl⟩ := hmore
    exact h.2 htext d (more' ++ rest) rfl

/-- Only the first characters behind a token matter, so it also stops where the line is cut off. -/
theorem Stops.of_append {token : Token} {text more rest : List Char}
    (h : Stops token text (more ++ rest)) : Stops token text more := by
  cases more with
  | nil => exact stops_nil token text
  | cons c more =>
    unfold Stops at h ⊢
    split
    · exact h
    · exact h.of_append
    · exact h
    · exact h
    · trivial

/-- Whether a character is outside all that may carry a token on: names, fractions and
comparators of two characters. -/
def isDelimiter (c : Char) : Bool :=
  !Text.isNameChar c && c != '.' && c != '='

theorem isDigit_of_isDelimiter {c : Char} (h : isDelimiter c = true) : c.isDigit = false := by
  simp only [isDelimiter, Text.isNameChar, Char.isAlphanum, Bool.and_eq_true, Bool.not_eq_true',
    Bool.or_eq_false_iff] at h
  exact h.1.1.1.2

/-- A delimiter carries no token on. -/
theorem Stops.append_delimiter {token : Token} {text rest : List Char}
    (h : Stops token text rest) {c : Char} (hc : isDelimiter c = true) (more : List Char) :
    Stops token text (rest ++ c :: more) := by
  have hdigit := isDigit_of_isDelimiter hc
  obtain ⟨⟨hname, hpoint⟩, hequals⟩ : (Text.isNameChar c = false ∧ c ≠ '.') ∧ c ≠ '=' := by
    simpa [isDelimiter] using hc
  unfold Stops at h ⊢
  split
  · cases rest with
    | nil =>
      rintro d ⟨⟩
      exact hname
    | cons d rest => exact h
  · constructor
    · cases rest with
      | nil =>
        rintro d ⟨⟩
        exact hdigit
      | cons d rest => exact h.1
    · -- Behind a point at the end of `rest` comes the delimiter, which is no digit.
      intro htext d more' hmore
      rcases rest with _ | ⟨e, _ | ⟨e', rest⟩⟩
      · exact absurd (List.cons.inj hmore).1 hpoint
      · obtain ⟨-, rfl, -⟩ : e = '.' ∧ c = d ∧ more = more' := by simpa using hmore
        exact hdigit
      · obtain ⟨rfl, rfl, -⟩ : e = '.' ∧ e' = d ∧ _ := by simpa using hmore
        exact h.2 htext e' rest rfl
  · cases rest <;> simp_all
  · cases rest <;> simp_all
  · trivial

/-! ## The scanner by the first character -/

theorem scan_of_isNameStart {c : Char} (h : Text.isNameStart c = true) (cs : List Char) :
    scan (c :: cs) = scanName (c :: cs) := by
  rw [scan, if_pos h]
  all_goals (intros; subst_vars; exact absurd h (by decide))

theorem scan_of_isDigit {c : Char} (h : c.isDigit = true) (cs : List Char) :
    scan (c :: cs) = scanNumber [] (c :: cs) := by
  rw [scan, if_neg (by simp [Text.isNameStart_of_isDigit h]), if_pos h]
  all_goals (intros; subst_vars; exact absurd h (by decide))

/-- Before a digit a hyphen is a sign of the number. -/
theorem scan_hyphen {c : Char} (h : c.isDigit = true) (cs : List Char) :
    scan ('-' :: c :: cs) = scanNumber ['-'] (c :: cs) := by
  rw [scan]
  · exact if_pos (by simpa using h)
  · rintro _ hc
    rw [(List.cons.inj hc).1] at h
    exact absurd h (by decide)

/-- Symbols are scanned one by one; only those that begin other symbols need to look at what
follows. -/
theorem scan_symbol {token : Token} {text rest : List Char} (h : token.symbol? = some text)
    (hrest : Stops token text rest) : scan (text ++ rest) = ⟨.ok token, text, rest⟩ := by
  cases token with
  | comparator c =>
    obtain rfl := Option.some.inj h
    cases c with
    | less =>
      -- An equals sign behind it would make it another comparator.
      refine (scan.eq_14 rest fun more hmore => ?_)
      exact hrest (by rw [hmore]; rfl)
    | greater =>
      refine (scan.eq_16 rest fun more hmore => ?_)
      exact hrest (by rw [hmore]; rfl)
    | _ => rfl
  | setOperator operator =>
    obtain rfl := Option.some.inj h
    cases operator <;> rfl
  | number | text | name | endOfLine => cases h
  | _ =>
    obtain rfl := Option.some.inj h
    rfl

/-! ## Numbers -/

/-- A number is cut off where it stops. -/
theorem splitNumber_spec {c : Char} (cs : List Char) (h : c.isDigit = true) :
    IsUnsigned (splitNumber (c :: cs)).1 ∧
      NumberStops (splitNumber (c :: cs)).1 (splitNumber (c :: cs)).2 := by
  have hdigits := Text.isDigits_takeWhile cs h
  have hstop := head?_dropWhile Char.isDigit (c :: cs)
  unfold splitNumber
  split
  next d rest hrest =>
    split
    next hd =>
      -- A point and a digit follow, so there is a fraction and no second one.
      refine ⟨.fraction hdigits (Text.isDigits_takeWhile rest hd), ?_, ?_⟩
      · exact head?_dropWhile Char.isDigit (d :: rest)
      · intro hpoint
        exact absurd (List.mem_append_right _ List.mem_cons_self) hpoint
    next hd =>
      refine ⟨.whole hdigits, ?_, ?_⟩
      · rwa [hrest] at hstop
      · rintro _ d' more hmore
        obtain ⟨-, rfl, -⟩ : '.' = '.' ∧ d = d' ∧ rest = more := by simpa using hmore
        exact Bool.of_not_eq_true hd
  next hrest =>
    refine ⟨.whole hdigits, hstop, ?_⟩
    intro _ d more hmore
    exact (hrest d more hmore).elim

/-- What is written as a number and stops is cut off as a whole. -/
theorem splitNumber_append_of_stop {text rest : List Char} (h : IsUnsigned text)
    (hrest : NumberStops text rest) : splitNumber (text ++ rest) = (text, rest) := by
  cases h with
  | whole hdigits =>
    have hpoint : '.' ∉ text := fun hmem => absurd (hdigits.2 '.' hmem) (by decide)
    rw [splitNumber, takeWhile_append_of_stop hdigits.2 hrest.1,
      dropWhile_append_of_stop hdigits.2 hrest.1]
    split
    next d more => rw [if_neg (by simp [hrest.2 hpoint d more rfl])]
    next => rfl
  | @fraction digits fraction hdigits hfraction =>
    obtain ⟨d, more, rfl⟩ := List.exists_cons_of_ne_nil hfraction.1
    have hd : d.isDigit = true := hfraction.2 d List.mem_cons_self
    have hpoint : ∀ c ∈ ('.' :: (d :: more ++ rest)).head?, c.isDigit = false := by
      rintro c ⟨⟩
      decide
    rw [List.append_assoc, List.cons_append, splitNumber,
      takeWhile_append_of_stop hdigits.2 hpoint, dropWhile_append_of_stop hdigits.2 hpoint]
    simp only [List.cons_append, hd, if_true]
    rw [← List.cons_append, takeWhile_append_of_stop hfraction.2 hrest.1,
      dropWhile_append_of_stop hfraction.2 hrest.1]

/-- Numbers without a sign begin with a digit. -/
theorem IsUnsigned.exists_cons {text : List Char} (h : IsUnsigned text) :
    ∃ c cs, text = c :: cs ∧ c.isDigit = true := by
  cases h with
  | whole hdigits => exact hdigits.exists_cons
  | fraction hdigits _ =>
    obtain ⟨c, cs, rfl, hc⟩ := hdigits.exists_cons
    exact ⟨c, _, rfl, hc⟩

/-- A sign is no point, so it does not matter to what a number is carried on by. -/
theorem numberStops_hyphen {text rest : List Char} :
    NumberStops ('-' :: text) rest ↔ NumberStops text rest := by
  simp [NumberStops]

theorem ofNumber_eq_ok {text : List Char} {token : Token} :
    ofNumber text = .ok token ↔ ∃ value, Decimal.read text = .ok value ∧ token = .number value := by
  rw [ofNumber]
  cases Decimal.read text <;> simp [eq_comm]

/-- What the scanner finds at the start of an unsigned number, its sign given apart. -/
theorem scanNumber_of_isUnsigned {sign text rest : List Char} {value : Decimal}
    (h : IsUnsigned text) (hrest : NumberStops text rest)
    (hvalue : Decimal.read (sign ++ text) = .ok value) :
    scanNumber sign (text ++ rest) = ⟨.ok (.number value), sign ++ text, rest⟩ := by
  rw [scanNumber, splitNumber_append_of_stop h hrest]
  simp only [ofNumber_eq_ok.mpr ⟨value, hvalue, rfl⟩]

/-- What is scanned as a number spells it and stops. -/
theorem spells_of_scanNumber {sign : List Char} {c : Char} {cs : List Char} {token : Token}
    (hsign : sign = [] ∨ sign = ['-']) (hc : c.isDigit = true)
    (h : (scanNumber sign (c :: cs)).outcome = .ok token) :
    Spells token (scanNumber sign (c :: cs)).text ∧
      Stops token (scanNumber sign (c :: cs)).text (scanNumber sign (c :: cs)).rest := by
  obtain ⟨hunsigned, hstop⟩ := splitNumber_spec cs hc
  obtain ⟨value, hvalue, rfl⟩ := ofNumber_eq_ok.mp h
  rcases hsign with rfl | rfl
  · exact ⟨.number (.unsigned hunsigned) hvalue, hstop⟩
  · exact ⟨.number (.negative hunsigned) hvalue, numberStops_hyphen.mpr hstop⟩

/-! ## Names and quoted texts -/

/-- The run of name characters from the first character of a name on is a name. -/
theorem isName_takeWhile {c : Char} (cs : List Char) (h : Text.isNameStart c = true) :
    Text.isName (String.ofList ((c :: cs).takeWhile Text.isNameChar)) = true := by
  rw [List.takeWhile_cons_of_pos (Text.isNameChar_of_isNameStart h), Text.isName,
    String.toList_ofList]
  simp [h]

/-- What is scanned as a name spells it and stops. -/
theorem spells_of_scanName {c : Char} {cs : List Char} (hc : Text.isNameStart c = true)
    {token : Token} (h : (scanName (c :: cs)).outcome = .ok token) :
    Spells token (scanName (c :: cs)).text ∧
      Stops token (scanName (c :: cs)).text (scanName (c :: cs)).rest := by
  obtain rfl := Except.ok.inj h
  have hspells := Spells.name (isName_takeWhile cs hc)
  rw [String.toList_ofList] at hspells
  exact ⟨hspells, head?_dropWhile Text.isNameChar (c :: cs)⟩

/-- The first character of a name is more restricted than the others. -/
theorem exists_cons_of_isName {value : String} (h : Text.isName value = true) :
    ∃ c cs, value.toList = c :: cs ∧ Text.isNameStart c = true ∧
      ∀ d ∈ c :: cs, Text.isNameChar d = true := by
  rw [Text.isName] at h
  split at h
  next => simp at h
  next c cs hvalue =>
    rw [Bool.and_eq_true, List.all_eq_true] at h
    refine ⟨c, cs, hvalue, h.1, ?_⟩
    rw [List.forall_mem_cons]
    exact ⟨Text.isNameChar_of_isNameStart h.1, h.2⟩

/-- A name that stops is scanned as a whole. -/
theorem scan_name {value : String} (h : Text.isName value = true) {rest : List Char}
    (hrest : ∀ c ∈ rest.head?, Text.isNameChar c = false) :
    scan (value.toList ++ rest) = ⟨.ok (.name value), value.toList, rest⟩ := by
  obtain ⟨c, cs, hvalue, hc, hall⟩ := exists_cons_of_isName h
  rw [hvalue, List.cons_append, scan_of_isNameStart hc, scanName, ← List.cons_append,
    takeWhile_append_of_stop hall hrest, dropWhile_append_of_stop hall hrest, ← hvalue,
    String.ofList_toList]

/-- Between quotes everything is taken, whatever follows. -/
theorem scan_text {content : List Char} (h : '\x27' ∉ content) (rest : List Char) :
    scan ('\x27' :: content ++ ['\x27'] ++ rest) =
      ⟨.ok (.text (String.ofList content)), '\x27' :: content ++ ['\x27'], rest⟩ := by
  have hcontent : ∀ c ∈ content, (c != '\x27') = true := by
    intro c hc
    exact bne_iff_ne.mpr (ne_of_mem_of_not_mem hc h)
  have hquote : ∀ c ∈ ('\x27' :: rest).head?, (c != '\x27') = false := by
    rintro c ⟨⟩
    decide
  rw [List.append_assoc, List.cons_append, List.singleton_append, scan, scanText,
    takeWhile_append_of_stop hcontent hquote, dropWhile_append_of_stop hcontent hquote]

/-- What is scanned as a text stands between quotes. -/
theorem spells_of_scanText {cs : List Char} {token : Token}
    (h : (scanText cs).outcome = .ok token) :
    Spells token (scanText cs).text ∧ Stops token (scanText cs).text (scanText cs).rest := by
  have hcontent : '\x27' ∉ cs.takeWhile (· != '\x27') := by
    intro hmem
    simpa using List.mem_takeWhile_imp hmem
  have hquote := head?_dropWhile (· != '\x27') cs
  unfold scanText at h ⊢
  split at h
  next => simp at h
  next quote rest hrest =>
    obtain rfl := Except.ok.inj h
    -- What stands behind the content is the closing quote.
    obtain rfl : quote = '\x27' := by simpa [hrest] using hquote
    exact ⟨.text hcontent, trivial⟩

/-! ## The scanner -/

/-- At the end of a text the scanner finds the end of the line.  Anywhere else what it finds is
spelled by what it uses up, and what it leaves does not carry that on. -/
theorem spells_of_scan {cs : List Char} {token : Token} (h : (scan cs).outcome = .ok token) :
    (cs = [] ∧ token = .endOfLine) ∨
      (Spells token (scan cs).text ∧ Stops token (scan cs).text (scan cs).rest) := by
  revert h
  fun_cases scan cs with
  | case1 => exact fun h => Or.inl ⟨rfl, (Except.ok.inj h).symm⟩
  | case14 rest hrest | case16 rest hrest =>
    intro h
    obtain rfl := Except.ok.inj h
    refine Or.inr ⟨.symbol rfl, fun hequals => ?_⟩
    obtain ⟨more, hmore⟩ := List.head?_eq_some_iff.mp hequals
    exact hrest more hmore
  | case20 rest _ hdigit =>
    intro h
    cases rest with
    | nil => simp at hdigit
    | cons c rest => exact Or.inr (spells_of_scanNumber (Or.inr rfl) hdigit h)
  | case22 rest => exact fun h => Or.inr (spells_of_scanText h)
  | case23 => exact fun h => Or.inr (spells_of_scanName ‹Text.isNameStart _ = true› h)
  | case24 => exact fun h => Or.inr (spells_of_scanNumber (Or.inl rfl) ‹Char.isDigit _ = true› h)
  | case18 | case21 | case25 =>
    intro h
    simp at h
  | _ =>
    -- Any other sign is spelled in one way, and nothing carries it on.
    intro h
    obtain rfl := Except.ok.inj h
    exact Or.inr ⟨.symbol rfl, trivial⟩

/-- What comes first in a text and is not carried on is what the scanner finds. -/
theorem scan_of_spells {token : Token} {text rest : List Char} (h : Spells token text)
    (hrest : Stops token text rest) : scan (text ++ rest) = ⟨.ok token, text, rest⟩ := by
  cases h with
  | number hnumeral hvalue =>
    cases hnumeral with
    | unsigned hunsigned =>
      obtain ⟨c, cs, rfl, hc⟩ := hunsigned.exists_cons
      rw [List.cons_append, scan_of_isDigit hc, ← List.cons_append]
      exact scanNumber_of_isUnsigned hunsigned hrest hvalue
    | negative hunsigned =>
      obtain ⟨c, cs, rfl, hc⟩ := hunsigned.exists_cons
      rw [List.cons_append, List.cons_append, scan_hyphen hc, ← List.cons_append]
      exact scanNumber_of_isUnsigned hunsigned (numberStops_hyphen.mp hrest) hvalue
  | text hcontent => exact scan_text hcontent rest
  | name hname => exact scan_name hname hrest
  | symbol hsymbol => exact scan_symbol hsymbol hrest

/-- Only names spell name tokens. -/
theorem Spells.isName {value : String} {text : List Char} (h : Spells (.name value) text) :
    Text.isName value = true := by
  cases h with
  | name hname => exact hname
  | symbol hsymbol => simp [symbol?] at hsymbol

theorem spells_quoted {content : String} (h : '\x27' ∉ content.toList) :
    Spells (.text content) ('\x27' :: content.toList ++ ['\x27']) := by
  have hspells := Spells.text h
  rwa [String.ofList_toList] at hspells

/-- There are no quotes within a quoted text. -/
theorem Spells.quote_not_mem {content : String} {text : List Char}
    (h : Spells (.text content) text) : '\x27' ∉ content.toList := by
  cases h with
  | text hcontent => rwa [String.toList_ofList]
  | symbol hsymbol => simp [symbol?] at hsymbol

/-- Only numerals that decimals have room for spell numbers. -/
theorem Spells.exists_read {value : Decimal} {text : List Char} (h : Spells (.number value) text) :
    IsNumeral text ∧ Decimal.read text = .ok value := by
  cases h with
  | number hnumeral hvalue => exact ⟨hnumeral, hvalue⟩
  | symbol hsymbol => simp [symbol?] at hsymbol

/-- A sign has characters, and none of them is blank. -/
theorem isBlank_of_mem_symbol {token : Token} {text : List Char} (h : token.symbol? = some text) :
    text ≠ [] ∧ ∀ c ∈ text, Text.isBlank c = false := by
  have hall : text ≠ [] ∧ text.any Text.isBlank = false := by
    cases token with
    | comparator c =>
      obtain rfl := Option.some.inj h
      cases c <;> exact ⟨by decide, by decide⟩
    | setOperator operator =>
      obtain rfl := Option.some.inj h
      cases operator <;> exact ⟨by decide, by decide⟩
    | number | text | name | endOfLine => cases h
    | _ =>
      obtain rfl := Option.some.inj h
      exact ⟨by decide, by decide⟩
  exact hall.imp_right fun h c hc => Bool.of_not_eq_true (List.any_eq_false.mp h c hc)

/-- A spelling begins with a character that is no blank. -/
theorem Spells.exists_cons {token : Token} {text : List Char} (h : Spells token text) :
    ∃ c cs, text = c :: cs ∧ Text.isBlank c = false := by
  cases h with
  | number hnumeral _ =>
    cases hnumeral with
    | unsigned hunsigned =>
      obtain ⟨c, cs, rfl, hc⟩ := hunsigned.exists_cons
      exact ⟨c, cs, rfl, Text.isBlank_of_isDigit hc⟩
    | negative => exact ⟨_, _, rfl, by decide⟩
  | text => exact ⟨_, _, rfl, by decide⟩
  | name hname =>
    obtain ⟨c, cs, hvalue, hc, -⟩ := exists_cons_of_isName hname
    exact ⟨c, cs, hvalue, Text.isBlank_of_isNameStart hc⟩
  | symbol hsymbol =>
    obtain ⟨hne, hblank⟩ := isBlank_of_mem_symbol hsymbol
    obtain ⟨c, cs, rfl⟩ := List.exists_cons_of_ne_nil hne
    exact ⟨c, cs, rfl, hblank c List.mem_cons_self⟩

theorem Spells.ne_endOfLine {token : Token} {text : List Char} (h : Spells token text) :
    token ≠ .endOfLine := by
  rintro rfl
  cases h with
  | symbol hsymbol => simp [symbol?] at hsymbol

/-- The end of the line is found when nothing is left. -/
theorem scan_eq_endOfLine_iff {cs : List Char} :
    (scan cs).outcome = .ok .endOfLine ↔ cs = [] := by
  constructor
  · intro h
    rcases spells_of_scan h with ⟨hcs, -⟩ | ⟨hspells, -⟩
    · exact hcs
    · exact absurd rfl hspells.ne_endOfLine
  · rintro rfl
    rfl

/-- **The scanner finds what is spelled.**  It cuts off a token exactly where a spelling of the
token comes first and is not carried on. -/
theorem scan_eq_ok_iff {cs text rest : List Char} {token : Token} (htoken : token ≠ .endOfLine) :
    scan cs = ⟨.ok token, text, rest⟩ ↔
      cs = text ++ rest ∧ Spells token text ∧ Stops token text rest := by
  constructor
  · intro h
    have happend := scan_append cs
    have houtcome : (scan cs).outcome = .ok token := by rw [h]
    have hspells := (spells_of_scan houtcome).resolve_left fun hend => htoken hend.2
    rw [h] at happend hspells
    exact ⟨happend.symm, hspells⟩
  · rintro ⟨rfl, hspells, hstops⟩
    exact scan_of_spells hspells hstops

/-! ## Longest spellings -/

/-- **A text spells one token at most.** -/
theorem Spells.unique {a b : Token} {text : List Char} (ha : Spells a text) (hb : Spells b text) :
    a = b := by
  have hscan := (scan_of_spells ha (stops_nil a text)).symm.trans
    (scan_of_spells hb (stops_nil b text))
  simpa using hscan

/-- **The token found is the longest.**  Where a spelling comes first and is not carried on,
no longer spelling of any token comes first. -/
theorem Spells.length_le {a b : Token} {text longer rest : List Char} (ha : Spells a text)
    (hstops : Stops a text rest) (hb : Spells b longer) (hfirst : longer <+: text ++ rest) :
    longer.length ≤ text.length := by
  by_contra hlt
  obtain ⟨more, rfl⟩ : text <+: longer :=
    List.prefix_of_prefix_length_le (List.prefix_append text rest) hfirst (by omega)
  obtain ⟨left, hleft⟩ := hfirst
  rw [List.append_assoc, List.append_cancel_left_eq] at hleft
  -- The scanner would find both of them in the longer one.
  have hfound := scan_of_spells ha (hleft ▸ hstops).of_append
  have hlonger := scan_of_spells hb (stops_nil b (text ++ more))
  rw [List.append_nil, hfound] at hlonger
  obtain rfl : more = [] := by simp_all
  simp at hlt

end Token

end RelationScript
