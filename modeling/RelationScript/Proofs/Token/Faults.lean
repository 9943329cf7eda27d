/-
# Faults of the scanner

Where the scanner finds fault, no token begins, for one of five reasons.  They are told apart by the
characters that stand there, and by the message.

* `Token.Unspelled` : the characters at whose start there is no token, and why;
* `Token.scan_eq_error_iff` : the scanner in these terms;
* `Token.Unspelled.eq_of_message_eq` : the message tells why.
-/
import RelationScript.Proofs.Decimal.Overflow
import RelationScript.Proofs.Token.Runs

namespace RelationScript

namespace Token

/-! ## Numbers in parts -/

/-- The text of a number with the digits `whole`, and behind a point the digits `fraction` if there
are any. -/
def numberText (sign whole fraction : List Char) : List Char :=
  sign ++ (whole ++ if fraction = [] then [] else '.' :: fraction)

theorem isUnsigned_numberText {whole fraction : List Char} (hwhole : Text.IsDigits whole)
    (hfraction : ∀ c ∈ fraction, c.isDigit = true) : IsUnsigned (numberText [] whole fraction) := by
  unfold numberText
  by_cases h : fraction = []
  · simpa [h] using IsUnsigned.whole hwhole
  · simpa [h] using IsUnsigned.fraction hwhole ⟨h, hfraction⟩

/-- A number without a sign has digits before the point and perhaps digits behind it. -/
theorem IsUnsigned.exists_parts {text : List Char} (h : IsUnsigned text) :
    ∃ whole fraction, Text.IsDigits whole ∧ (∀ c ∈ fraction, c.isDigit = true) ∧
      text = numberText [] whole fraction := by
  cases h with
  | whole hdigits => exact ⟨text, [], hdigits, by simp, by simp [numberText]⟩
  | @fraction digits fraction hdigits hfraction =>
    exact ⟨digits, fraction, hdigits, hfraction.2, by simp [numberText, hfraction.1]⟩

/-- A number is made up of digits, a hyphen and a point. -/
theorem of_mem_numberText {sign whole fraction : List Char}
    (hsign : sign = [] ∨ sign = ['-']) (hwhole : Text.IsDigits whole)
    (hfraction : ∀ c ∈ fraction, c.isDigit = true) {c : Char}
    (h : c ∈ numberText sign whole fraction) : c = '-' ∨ c = '.' ∨ c.isDigit = true := by
  unfold numberText at h
  rcases List.mem_append.mp h with h | h
  · rcases hsign with rfl | rfl
    · cases h
    · exact Or.inl (List.mem_singleton.mp h)
  · rcases List.mem_append.mp h with h | h
    · exact Or.inr (Or.inr (hwhole.2 c h))
    · split at h
      · cases h
      · rcases List.mem_cons.mp h with h | h
        · exact Or.inr (Or.inl h)
        · exact Or.inr (Or.inr (hfraction c h))

/-- Whether the reader refuses a number is up to its digits. -/
theorem read_numberText_eq_error {sign whole fraction : List Char}
    (hsign : sign = [] ∨ sign = ['-']) (hwhole : Text.IsDigits whole)
    (hfraction : ∀ c ∈ fraction, c.isDigit = true) {fault : Decimal.ReadFault} :
    Decimal.read (numberText sign whole fraction) = .error fault ↔
      Decimal.Oversized whole fraction fault := by
  have hread (negative : Bool) := Decimal.readUnsigned_parts negative hwhole hfraction
  rcases hsign with rfl | rfl
  · obtain ⟨c, cs, hcons, hc⟩ := (isUnsigned_numberText hwhole hfraction).exists_cons
    rw [hcons, Decimal.read_of_isDigit hc, ← hcons]
    exact (hread false).symm ▸ Decimal.ofDigits_eq_error hfraction
  · show Decimal.readUnsigned true (whole ++ _) = _ ↔ _
    rw [hread]
    exact Decimal.ofDigits_eq_error hfraction

/-! ## Characters that begin no token -/

/-- The characters at whose start there is no token, and the reason. -/
inductive Unspelled : ScanCause → List Char → Prop
  /-- No quote comes behind an opening quote. -/
  | openText {content : List Char} (h : '\x27' ∉ content) :
      Unspelled .openText ('\x27' :: content)
  /-- All digits of a number make it too large. -/
  | badNumber {sign whole fraction rest : List Char} {fault : Decimal.ReadFault}
      (hsign : sign = [] ∨ sign = ['-']) (hwhole : Text.IsDigits whole)
      (hfraction : ∀ c ∈ fraction, c.isDigit = true)
      (hstops : NumberStops (numberText sign whole fraction) rest)
      (hlarge : Decimal.Oversized whole fraction fault) :
      Unspelled (.badNumber (String.ofList (numberText sign whole fraction)) fault)
        (numberText sign whole fraction ++ rest)
  /-- No equals sign comes behind an exclamation mark. -/
  | loneExclamation {rest : List Char} (h : rest.head? ≠ some '=') :
      Unspelled .loneExclamation ('!' :: rest)
  /-- Neither a greater-than sign nor a digit comes behind a hyphen. -/
  | loneHyphen {rest : List Char} (hgreater : rest.head? ≠ some '>')
      (hdigit : ∀ c ∈ rest.head?, c.isDigit = false) : Unspelled .loneHyphen ('-' :: rest)
  /-- No token begins with the character at all. -/
  | stray {c : Char} {rest : List Char} (hblank : Text.isBlank c = false)
      (h : ∀ token more, ¬ Spells token (c :: more)) : Unspelled (.stray c) (c :: rest)

/-- Where no token is spelled there is a character, and it is not a blank. -/
theorem Unspelled.exists_cons {cause : ScanCause} {cs : List Char} (h : Unspelled cause cs) :
    ∃ c rest, cs = c :: rest ∧ Text.isBlank c = false := by
  cases h with
  | openText => exact ⟨_, _, rfl, by decide⟩
  | @badNumber sign whole fraction rest _ hsign hwhole =>
    obtain ⟨d, ds, rfl, hd⟩ := hwhole.exists_cons
    rcases hsign with rfl | rfl
    · exact ⟨d, _, rfl, Text.isBlank_of_isDigit hd⟩
    · exact ⟨'-', _, rfl, by decide⟩
  | loneExclamation => exact ⟨_, _, rfl, by decide⟩
  | loneHyphen => exact ⟨_, _, rfl, by decide⟩
  | stray hblank => exact ⟨_, _, rfl, hblank⟩

theorem ofNumber_eq_error {text : List Char} {cause : ScanCause} :
    ofNumber text = .error cause ↔
      ∃ fault, Decimal.read text = .error fault ∧ cause = .badNumber (String.ofList text) fault := by
  rw [ofNumber]
  cases Decimal.read text <;> simp [eq_comm]

/-- The scanner rejects digits only where they spell no number. -/
theorem unspelled_of_scanNumber {sign : List Char} {c : Char} {cs : List Char} {cause : ScanCause}
    (hsign : sign = [] ∨ sign = ['-']) (hc : c.isDigit = true)
    (h : (scanNumber sign (c :: cs)).outcome = .error cause) :
    Unspelled cause (sign ++ c :: cs) := by
  obtain ⟨hunsigned, hstops⟩ := splitNumber_spec cs hc
  have happend := splitNumber_append (c :: cs)
  obtain ⟨whole, fraction, hwhole, hfraction, htext⟩ := hunsigned.exists_parts
  rw [scanNumber] at h
  dsimp only at h
  rw [htext] at h hstops happend
  obtain ⟨fault, hfault, rfl⟩ := ofNumber_eq_error.mp h
  have hlarge := (read_numberText_eq_error hsign hwhole hfraction).mp hfault
  rw [← happend, ← List.append_assoc]
  refine .badNumber hsign hwhole hfraction ?_ hlarge
  rcases hsign with rfl | rfl
  · exact hstops
  · exact numberStops_hyphen.mpr hstops

/-- Digits that do not fit are rejected whole, up to where the number stops. -/
theorem scanNumber_of_oversized {sign whole fraction rest : List Char} {fault : Decimal.ReadFault}
    (hsign : sign = [] ∨ sign = ['-']) (hwhole : Text.IsDigits whole)
    (hfraction : ∀ c ∈ fraction, c.isDigit = true)
    (hstops : NumberStops (numberText sign whole fraction) rest)
    (hlarge : Decimal.Oversized whole fraction fault) :
    (scanNumber sign (numberText [] whole fraction ++ rest)).outcome =
      .error (.badNumber (String.ofList (numberText sign whole fraction)) fault) := by
  have hunsigned : NumberStops (numberText [] whole fraction) rest := by
    rcases hsign with rfl | rfl
    · exact hstops
    · exact numberStops_hyphen.mp hstops
  rw [scanNumber, splitNumber_append_of_stop (isUnsigned_numberText hwhole hfraction) hunsigned]
  exact ofNumber_eq_error.mpr
    ⟨fault, (read_numberText_eq_error hsign hwhole hfraction).mpr hlarge, rfl⟩

/-- What the scanner finds fault with begins no token. -/
theorem unspelled_of_scan {cs : List Char} {cause : ScanCause}
    (hstart : ∀ c ∈ cs.head?, Text.isBlank c = false) (h : (scan cs).outcome = .error cause) :
    Unspelled cause cs := by
  revert h
  fun_cases scan cs with
  | case18 rest hrest =>
    rintro ⟨⟩
    refine .loneExclamation fun hequals => ?_
    obtain ⟨more, hmore⟩ := List.head?_eq_some_iff.mp hequals
    exact hrest more hmore
  | case20 rest _ hdigit =>
    intro h
    cases rest with
    | nil => simp at hdigit
    | cons c rest => exact unspelled_of_scanNumber (Or.inr rfl) hdigit h
  | case21 rest hrest hdigit =>
    rintro ⟨⟩
    refine .loneHyphen (fun hgreater => ?_) fun c hc => ?_
    · obtain ⟨more, hmore⟩ := List.head?_eq_some_iff.mp hgreater
      exact hrest more hmore
    · rw [Option.mem_def] at hc
      simpa [hc] using hdigit
  | case22 rest =>
    intro h
    unfold scanText at h
    split at h
    next hnil =>
      obtain rfl := Except.error.inj h
      refine .openText fun hquote => ?_
      simpa using List.dropWhile_eq_nil_iff.mp hnil _ hquote
    next => simp at h
  | case24 => exact fun h => unspelled_of_scanNumber (Or.inl rfl) ‹Char.isDigit _ = true› h
  | case25 c rest =>
    rintro ⟨⟩
    refine .stray (hstart c rfl) fun token more hspells => ?_
    -- Whatever comes behind it, the character is found to be stray.
    have hscan := scan_of_spells hspells (stops_nil token _)
    rw [List.append_nil, scan, if_neg ‹_›, if_neg ‹_›] at hscan
    · simp at hscan
    all_goals (intros; contradiction)
  | _ =>
    intro h
    simp [scanName] at h

theorem scanText_of_quote_not_mem {content : List Char} (h : '\x27' ∉ content) :
    (scanText content).outcome = .error .openText := by
  have hdrop : content.dropWhile (· != '\x27') = [] :=
    List.dropWhile_eq_nil_iff.mpr fun c hc => bne_iff_ne.mpr (ne_of_mem_of_not_mem hc h)
  unfold scanText
  rw [hdrop]

/-- A digit alone is a number. -/
theorem exists_spells_digit {c : Char} (h : c.isDigit = true) : ∃ token, Spells token [c] := by
  have hdigits : Text.IsDigits [c] := ⟨List.cons_ne_nil c [], List.forall_mem_singleton.mpr h⟩
  have hsmall : Text.digitsValue [c] < 10 := Text.digitsValue_lt hdigits.2
  cases hread : Decimal.read [c] with
  | ok value => exact ⟨_, .number (.unsigned (.whole hdigits)) hread⟩
  | error fault =>
    have hbound : 11 ≤ Decimal.bound := by decide
    have hlarge := (@read_numberText_eq_error [] [c] [] (Or.inl rfl) hdigits (by simp) fault).mp hread
    rcases hlarge with h | ⟨-, h⟩
    · omega
    · rw [List.append_nil, List.length_nil, Text.tenTo_zero] at h
      omega

/-- A character is not stray if it begins the characters of another fault. -/
theorem Unspelled.eq_stray {cause : ScanCause} {c : Char} {rest : List Char}
    (h : Unspelled cause (c :: rest)) (hstray : ∀ token more, ¬ Spells token (c :: more)) :
    cause = .stray c := by
  generalize hcs : c :: rest = cs at h
  cases h with
  | openText =>
    obtain ⟨rfl, -⟩ := List.cons.inj hcs
    exact absurd (Spells.text List.not_mem_nil) (hstray _ _)
  | @badNumber sign whole fraction _ _ hsign hwhole =>
    rcases hsign with rfl | rfl
    · obtain ⟨d, ds, rfl, hd⟩ := hwhole.exists_cons
      obtain ⟨rfl, -⟩ := List.cons.inj hcs
      obtain ⟨token, hspells⟩ := exists_spells_digit hd
      exact absurd hspells (hstray token [])
    · obtain ⟨rfl, -⟩ := List.cons.inj hcs
      exact absurd (Spells.symbol rfl) (hstray .arrow ['>'])
  | loneExclamation =>
    obtain ⟨rfl, -⟩ := List.cons.inj hcs
    exact absurd (Spells.symbol rfl) (hstray (.comparator .notEqual) ['='])
  | loneHyphen =>
    obtain ⟨rfl, -⟩ := List.cons.inj hcs
    exact absurd (Spells.symbol rfl) (hstray .arrow ['>'])
  | stray =>
    obtain ⟨rfl, -⟩ := List.cons.inj hcs
    rfl

/-- What begins no token is what the scanner finds fault with. -/
theorem scan_of_unspelled {cause : ScanCause} {cs : List Char} (h : Unspelled cause cs) :
    (scan cs).outcome = .error cause := by
  cases h with
  | openText hquote => exact scanText_of_quote_not_mem hquote
  | @badNumber sign whole fraction rest _ hsign hwhole hfraction hstops hlarge =>
    have hscan := scanNumber_of_oversized hsign hwhole hfraction hstops hlarge
    obtain ⟨c, cs, hcons, hc⟩ := (isUnsigned_numberText hwhole hfraction).exists_cons
    rw [hcons, List.cons_append] at hscan
    rcases hsign with rfl | rfl
    · rw [hcons, List.cons_append, scan_of_isDigit hc, hscan, hcons]
    · show (scan ('-' :: (numberText [] whole fraction ++ rest))).outcome = _
      rw [hcons, List.cons_append, scan_hyphen hc, hscan]
  | loneExclamation hequals =>
    rw [scan]
    rintro more rfl
    exact hequals rfl
  | loneHyphen hgreater hdigit =>
    rw [scan, if_neg]
    · rw [Option.any_eq_true]
      rintro ⟨c, hc, hcdigit⟩
      rw [hdigit c hc] at hcdigit
      cases hcdigit
    · rintro more rfl
      exact hgreater rfl
  | @stray c rest hblank hstray =>
    cases houtcome : (scan (c :: rest)).outcome with
    | ok token =>
      -- What is spelled there would begin with the character.
      rcases spells_of_scan houtcome with ⟨hnil, -⟩ | ⟨hspells, -⟩
      · cases hnil
      · obtain ⟨d, more, htext, -⟩ := hspells.exists_cons
        have happend := scan_append (c :: rest)
        rw [htext, List.cons_append, List.cons.injEq] at happend
        rw [htext, happend.1] at hspells
        exact absurd hspells (hstray token more)
    | error cause =>
      have hcs := @unspelled_of_scan (c :: rest) cause (by rintro _ ⟨⟩; exact hblank) houtcome
      rw [hcs.eq_stray hstray]

/-- **Where no token is found.**  On characters that do not start with a blank the scanner fails
exactly where no token begins, for the reason that there is. -/
theorem scan_eq_error_iff {cs : List Char} (hstart : ∀ c ∈ cs.head?, Text.isBlank c = false)
    {cause : ScanCause} : (scan cs).outcome = .error cause ↔ Unspelled cause cs :=
  ⟨unspelled_of_scan hstart, scan_of_unspelled⟩

end Token

/-! ## Messages -/

namespace ScanCause

/-- The first characters of the message, by the kind of cause. -/
def opening : ScanCause → String
  | openText => "Unterminated "
  | badNumber _ _ => "Invalid numbe"
  | loneExclamation => "Unexpected '!"
  | loneHyphen => "Unexpected '-"
  | stray _ => "Unexpected ch"

/-- The first thirteen characters of a message are those of its opening. -/
theorem take_message (cause : ScanCause) : cause.message.toList.take 13 = cause.opening.toList := by
  cases cause with
  | badNumber text fault =>
    show ("Invalid number '" ++ text ++ "': " ++ fault.message).toList.take 13 =
      "Invalid numbe".toList
    rw [String.append_assoc, String.append_assoc, String.toList_append,
      List.take_append_of_le_length (by decide)]
    decide
  | stray c =>
    show ("Unexpected character '" ++ c.toString ++ "'").toList.take 13 = "Unexpected ch".toList
    rw [String.append_assoc, String.toList_append, List.take_append_of_le_length (by decide)]
    decide
  | _ => decide

theorem opening_eq_of_message_eq {a b : ScanCause} (h : a.message = b.message) :
    a.opening = b.opening := by
  rw [← String.toList_inj, ← take_message, h, take_message]

/-- The message for a stray character tells which character it is. -/
theorem eq_of_message_stray {c d : Char} (h : (stray c).message = (stray d).message) : c = d := by
  have hstrings : "Unexpected character '" ++ c.toString ++ "'" =
      "Unexpected character '" ++ d.toString ++ "'" := h
  rw [String.append_left_inj, String.append_right_inj, ← String.toList_inj,
    Char.toString_eq_singleton, Char.toString_eq_singleton, String.toList_singleton,
    String.toList_singleton] at hstrings
  exact List.singleton_inj.mp hstrings

/-- The message of a number at fault, character by character. -/
theorem toList_message_badNumber (text : List Char) (fault : Decimal.ReadFault) :
    (badNumber (String.ofList text) fault).message.toList =
      "Invalid number '".toList ++ (text ++ '\x27' :: (": ".toList ++ fault.message.toList)) := by
  show ("Invalid number '" ++ String.ofList text ++ "': " ++ fault.message).toList = _
  rw [String.toList_append, String.toList_append, String.toList_append, @String.toList_ofList text,
    List.append_assoc, List.append_assoc]
  rfl

/-- The quote behind the number is the first one, and no quote comes after it. -/
theorem eq_of_message_badNumber {text other : List Char} {a b : Decimal.ReadFault}
    (htext : '\x27' ∉ text)
    (h : (badNumber (String.ofList text) a).message =
      (badNumber (String.ofList other) b).message) : text = other ∧ a = b := by
  have hwords : '\x27' ∉ ": ".toList ++ a.message.toList := by
    cases a <;> decide
  have hlist := congrArg String.toList h
  rw [toList_message_badNumber, toList_message_badNumber, List.append_cancel_left_eq] at hlist
  obtain ⟨hsame, -, hfault⟩ := (List.append_cons_inj_of_notMem htext hwords).mp hlist
  rw [List.append_cancel_left_eq, String.toList_inj] at hfault
  refine ⟨hsame, ?_⟩
  cases a <;> cases b <;> first | rfl | exact absurd hfault (by decide)

end ScanCause

namespace Token

/-- **A message tells its cause**, down to the number or character that it shows. -/
theorem Unspelled.eq_of_message_eq {a b : ScanCause} {cs ds : List Char} (ha : Unspelled a cs)
    (hb : Unspelled b ds) (h : a.message = b.message) : a = b := by
  have hopening := ScanCause.opening_eq_of_message_eq h
  cases ha with
  | badNumber hsign hwhole hfraction =>
    cases hb with
    | badNumber =>
      have hquote : '\x27' ∉ numberText _ _ _ := fun hmem => by
        rcases of_mem_numberText hsign hwhole hfraction hmem with h | h | h <;>
          exact absurd h (by decide)
      obtain ⟨htext, hfault⟩ := ScanCause.eq_of_message_badNumber hquote h
      rw [htext, hfault]
    | _ => simp [ScanCause.opening] at hopening
  | stray =>
    cases hb with
    | stray => rw [ScanCause.eq_of_message_stray h]
    | _ => simp [ScanCause.opening] at hopening
  | _ => cases hb <;> first | rfl | simp [ScanCause.opening] at hopening

end Token

end RelationScript
