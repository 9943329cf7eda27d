/-
# Lines as rows of tokens

A line that can be scanned is a row of spelled tokens with blanks between them.  So the spans
of its tokens cover all of it but blanks, in order and without overlap, and each token can be
read off the characters of its span.

* `Lexes` : a line cut into gaps and spellings;
* `lexemes_eq_ok_iff` : the scanner makes these cuts and no others;
* `Cursor.lexemesWithin_eq` : it comes to an end;
* `Tiles`, `tiles_of_spannedOf` : the spans of a line.
-/
import RelationScript.Proofs.Outcome
import RelationScript.Proofs.Token.Spelling

namespace RelationScript

open Token (Spells Stops)

/-! ## Lines as gaps and spellings -/

/-- A line cut into lexemes: blanks and a spelling that is not carried on, time after time, and
blanks before the end. -/
inductive Lexes : List Char → List Lexeme → Prop
  | endOfLine {gap : List Char} (hgap : ∀ c ∈ gap, Text.isBlank c = true) :
      Lexes gap [⟨.endOfLine, gap, []⟩]
  | token {token : Token} {gap text rest : List Char} {more : List Lexeme}
      (hgap : ∀ c ∈ gap, Text.isBlank c = true) (hspells : Spells token text)
      (hstops : Stops token text rest) (hmore : Lexes rest more) :
      Lexes (gap ++ (text ++ rest)) (⟨token, gap, text⟩ :: more)

/-! ## The scanner cuts lines so -/

/-- A lexeme that is found is the longest token behind the blanks, and the blanks are its gap. -/
theorem next_eq_ok {cursor after : Cursor} {lexeme : Lexeme}
    (h : cursor.next = (.ok lexeme, after)) :
    Token.scan (cursor.rest.dropWhile Text.isBlank) = ⟨.ok lexeme.token, lexeme.text, after.rest⟩ ∧
      lexeme.gap = cursor.rest.takeWhile Text.isBlank := by
  dsimp only [Cursor.next] at h
  split at h
  next token htoken =>
    simp only [Prod.mk.injEq, Except.ok.injEq] at h
    obtain ⟨rfl, rfl⟩ := h
    exact ⟨by rw [← htoken], rfl⟩
  next => simp at h

/-- A token that stops where its longest match stops is the next lexeme, whatever the offset. -/
theorem next_of_spells {offset : Nat} {token : Token} {gap text rest : List Char}
    (hgap : ∀ c ∈ gap, Text.isBlank c = true) (hspells : Spells token text)
    (hstops : Stops token text rest) :
    Cursor.next ⟨offset, gap ++ (text ++ rest)⟩ =
      (.ok ⟨token, gap, text⟩, ⟨offset + gap.length + text.length, rest⟩) := by
  have hstart : ∀ c ∈ (text ++ rest).head?, Text.isBlank c = false := by
    obtain ⟨c, cs, rfl, hc⟩ := hspells.exists_cons
    rintro d ⟨⟩
    exact hc
  simp only [Cursor.next, takeWhile_append_of_stop hgap hstart,
    dropWhile_append_of_stop hgap hstart, Token.scan_of_spells hspells hstops]

/-- Behind the next lexeme come those of the place after it, unless it is the end of the line. -/
theorem lexemes_of_next {cursor after : Cursor} {lexeme : Lexeme}
    (h : cursor.next = (.ok lexeme, after)) :
    cursor.lexemes =
      if lexeme.token = .endOfLine then .ok [lexeme] else after.lexemes.map (lexeme :: ·) := by
  rw [Cursor.lexemes]
  split
  next hnext => simp [h] at hnext
  next lexeme' after' hnext =>
    obtain ⟨rfl, rfl⟩ : lexeme = lexeme' ∧ after = after' := by simpa [h] using hnext
    split
    · rfl
    · cases after.lexemes <;> rfl

/-- If no lexeme comes next, there are no lexemes from here on. -/
theorem lexemes_of_next_fault {cursor after : Cursor} {fault : ScanFault}
    (h : cursor.next = (.error fault, after)) : cursor.lexemes = .error fault := by
  rw [Cursor.lexemes]
  split
  next fault' after' hnext =>
    obtain ⟨rfl, rfl⟩ : fault = fault' ∧ after = after' := by simpa [h] using hnext
    rfl
  next hnext => simp [h] at hnext

/-- What is spelled first is the first lexeme. -/
theorem lexemes_of_spells {token : Token} {gap text rest : List Char}
    (hgap : ∀ c ∈ gap, Text.isBlank c = true) (hspells : Spells token text)
    (hstops : Stops token text rest) (offset : Nat) :
    Cursor.lexemes ⟨offset, gap ++ (text ++ rest)⟩ =
      (Cursor.lexemes ⟨offset + gap.length + text.length, rest⟩).map (⟨token, gap, text⟩ :: ·) := by
  rw [lexemes_of_next (next_of_spells hgap hspells hstops), if_neg hspells.ne_endOfLine]

theorem next_of_blank {offset : Nat} {gap : List Char} (hgap : ∀ c ∈ gap, Text.isBlank c = true) :
    Cursor.next ⟨offset, gap⟩ = (.ok ⟨.endOfLine, gap, []⟩, ⟨offset + gap.length, []⟩) := by
  have htake : gap.takeWhile Text.isBlank = gap := by
    simpa using @takeWhile_append_of_stop Text.isBlank gap [] hgap (by simp)
  have hdrop : gap.dropWhile Text.isBlank = [] := by
    simpa using @dropWhile_append_of_stop Text.isBlank gap [] hgap (by simp)
  simp [Cursor.next, htake, hdrop, Token.scan]

/-- What the scanner finds tiles the rest of the line. -/
theorem lexes_of_lexemes {cursor : Cursor} {lexemes : List Lexeme}
    (h : cursor.lexemes = .ok lexemes) : Lexes cursor.rest lexemes := by
  fun_induction Cursor.lexemes cursor generalizing lexemes with
  | case1 => simp at h
  | case2 cursor lexeme after hnext hend =>
    obtain rfl : [lexeme] = lexemes := by simpa using h
    obtain ⟨hscan, hgap⟩ := next_eq_ok hnext
    -- The end of the line is found behind the last blanks only.
    have hdrop : cursor.rest.dropWhile Text.isBlank = [] := by
      rw [← Token.scan_eq_endOfLine_iff, hscan, hend]
    have hcut := List.takeWhile_append_dropWhile (p := Text.isBlank) (l := cursor.rest)
    rw [hdrop, List.append_nil, ← hgap] at hcut
    obtain ⟨htoken, htext, -⟩ : lexeme.token = .endOfLine ∧ lexeme.text = [] ∧ after.rest = [] := by
      simpa [hdrop, Token.scan] using hscan.symm
    have hlexeme : lexeme = ⟨.endOfLine, lexeme.gap, []⟩ := by rw [← htoken, ← htext]
    rw [hlexeme, ← hcut]
    exact .endOfLine fun c hc => List.mem_takeWhile_imp (hgap ▸ hc)
  | case3 cursor lexeme after hnext hend more hmore ih =>
    obtain rfl : lexeme :: more = lexemes := by simpa using h
    obtain ⟨hscan, hgap⟩ := next_eq_ok hnext
    obtain ⟨hdrop, hspells, hstops⟩ := (Token.scan_eq_ok_iff hend).mp hscan
    have hcut := List.takeWhile_append_dropWhile (p := Text.isBlank) (l := cursor.rest)
    rw [hdrop, ← hgap] at hcut
    rw [← hcut]
    exact .token (fun c hc => List.mem_takeWhile_imp (hgap ▸ hc)) hspells hstops (ih hmore)
  | case4 => simp at h

theorem lexemes_of_lexes {cs : List Char} {lexemes : List Lexeme} (h : Lexes cs lexemes)
    (offset : Nat) : Cursor.lexemes ⟨offset, cs⟩ = .ok lexemes := by
  induction h generalizing offset with
  | endOfLine hgap =>
    rw [lexemes_of_next (next_of_blank hgap), if_pos rfl]
  | token hgap hspells hstops hmore ih =>
    rw [lexemes_of_spells hgap hspells hstops, ih]
    rfl

/-- **The scanner cuts a line into gaps and spellings**, and wherever a line can be cut so, the
scanner finds these cuts. -/
theorem lexemes_eq_ok_iff {cursor : Cursor} {lexemes : List Lexeme} :
    cursor.lexemes = .ok lexemes ↔ Lexes cursor.rest lexemes :=
  ⟨lexes_of_lexemes, fun h => lexemes_of_lexes h cursor.offset⟩

/-- Every lexeme but the last is spelled by its text. -/
theorem Lexes.spells_of_mem {cs : List Char} {lexemes : List Lexeme} (h : Lexes cs lexemes)
    {lexeme : Lexeme} (hlexeme : lexeme ∈ lexemes) :
    lexeme.token = .endOfLine ∨ Spells lexeme.token lexeme.text := by
  induction h with
  | endOfLine hgap =>
    rw [List.mem_singleton.mp hlexeme]
    exact Or.inl rfl
  | token hgap hspells hstops hmore ih =>
    rcases List.mem_cons.mp hlexeme with rfl | hlexeme
    · exact Or.inr hspells
    · exact ih hlexeme

/-! ## The scanner comes to an end -/

/-- The lexemes from a place to the end of the line, or the first fault, if so many steps are
enough to come there. -/
def Cursor.lexemesWithin : Nat → Cursor → Option (Except ScanFault (List Lexeme))
  | 0, _ => none
  | steps + 1, cursor =>
    match cursor.next with
    | (.error fault, _) => some (.error fault)
    | (.ok lexeme, after) =>
      if lexeme.token = .endOfLine then some (.ok [lexeme])
      else (lexemesWithin steps after).map (Except.map (lexeme :: ·))

/-- **The scanner comes to an end.**  It takes no more steps than there are characters, and one
for the end of the line. -/
theorem Cursor.lexemesWithin_eq {steps : Nat} {cursor : Cursor}
    (h : cursor.rest.length < steps) : cursor.lexemesWithin steps = some cursor.lexemes := by
  induction steps generalizing cursor with
  | zero => omega
  | succ steps ih =>
    rw [lexemesWithin]
    rcases hnext : cursor.next with ⟨fault | lexeme, after⟩
    · rw [lexemes_of_next_fault hnext]
    · rw [lexemes_of_next hnext]
      dsimp only
      split
      next => rfl
      next hend =>
        have hlt := length_next_lt hnext hend
        rw [ih (by omega)]
        rfl

/-! ## Spans of lexemes -/

/-- No token starts before the offset that the lexemes are laid out from. -/
theorem start_of_mem_spanned {offset : Nat} {lexemes : List Lexeme} {item : Token × Span}
    (h : item ∈ Lexeme.spanned offset lexemes) : offset ≤ item.2.start := by
  induction lexemes generalizing offset with
  | nil => simp [Lexeme.spanned] at h
  | cons lexeme more ih =>
    rw [Lexeme.spanned] at h
    rcases List.mem_cons.mp h with rfl | h
    · exact Nat.le_add_right _ _
    · have hstart := ih h
      omega

theorem map_fst_spanned (offset : Nat) (lexemes : List Lexeme) :
    (Lexeme.spanned offset lexemes).map Prod.fst = lexemes.map Lexeme.token := by
  induction lexemes generalizing offset with
  | nil => rfl
  | cons lexeme more ih => rw [Lexeme.spanned, List.map_cons, List.map_cons, ih]

/-- A span ends before the next one starts. -/
theorem pairwise_spanned (offset : Nat) (lexemes : List Lexeme) :
    (Lexeme.spanned offset lexemes).Pairwise fun a b => a.2.stop ≤ b.2.start := by
  induction lexemes generalizing offset with
  | nil => exact List.Pairwise.nil
  | cons lexeme more ih =>
    rw [Lexeme.spanned]
    exact List.Pairwise.cons (fun item hitem => start_of_mem_spanned hitem) (ih _)

/-- The end of the line comes last and nowhere else, behind all characters. -/
theorem Lexes.spanned_eq {cs : List Char} {lexemes : List Lexeme} (h : Lexes cs lexemes)
    (offset : Nat) :
    ∃ words, Lexeme.spanned offset lexemes =
        words ++ [(.endOfLine, ⟨offset + cs.length, offset + cs.length⟩)] ∧
      words.length ≤ cs.length ∧ ∀ item ∈ words, item.1 ≠ .endOfLine := by
  induction h generalizing offset with
  | endOfLine hgap => exact ⟨[], rfl, by simp, by simp⟩
  | @token token gap text rest more hgap hspells hstops hmore ih =>
    obtain ⟨words, hwords, hlength, hall⟩ := ih (offset + gap.length + text.length)
    obtain ⟨c, cs, rfl, -⟩ := hspells.exists_cons
    refine ⟨(token, ⟨offset + gap.length, offset + gap.length + (c :: cs).length⟩) :: words,
      ?_, ?_, ?_⟩
    · have hstop : offset + gap.length + (c :: cs).length + rest.length =
          offset + (gap ++ (c :: cs ++ rest)).length := by
        simp only [List.length_append]
        omega
      rw [Lexeme.spanned, hwords, hstop]
      rfl
    · simp only [List.length_cons, List.length_append]
      omega
    · rw [List.forall_mem_cons]
      exact ⟨hspells.ne_endOfLine, hall⟩

/-- A token stands in the line where its span says, spelled and not carried on. -/
theorem Lexes.exists_append {cs : List Char} {lexemes : List Lexeme} (h : Lexes cs lexemes)
    (before : List Char) {item : Token × Span}
    (hitem : item ∈ Lexeme.spanned before.length lexemes) (htoken : item.1 ≠ .endOfLine) :
    ∃ front text rest, before ++ cs = front ++ (text ++ rest) ∧ Spells item.1 text ∧
      Stops item.1 text rest ∧ item.2 = ⟨front.length, front.length + text.length⟩ := by
  induction h generalizing before with
  | endOfLine hgap =>
    simp only [Lexeme.spanned, List.mem_singleton] at hitem
    rw [hitem] at htoken
    exact absurd rfl htoken
  | @token token gap text rest more hgap hspells hstops hmore ih =>
    rw [Lexeme.spanned] at hitem
    rcases List.mem_cons.mp hitem with rfl | hitem
    · exact ⟨before ++ gap, text, rest, by simp, hspells, hstops, by simp⟩
    · -- The tokens behind the first have that one before them.
      have hmem : item ∈ Lexeme.spanned (before ++ (gap ++ text)).length more := by
        simpa [Nat.add_assoc] using hitem
      obtain ⟨front, text', rest', hline, hitem⟩ := ih (before ++ (gap ++ text)) hmem
      exact ⟨front, text', rest', by simpa using hline, hitem⟩

/-- Characters that no span covers are blank. -/
theorem Lexes.isBlank_of_uncovered {cs : List Char} {lexemes : List Lexeme} (h : Lexes cs lexemes)
    (offset : Nat) {index : Nat} {c : Char} (hc : cs[index]? = some c)
    (huncovered : ∀ item ∈ Lexeme.spanned offset lexemes,
      ¬(item.2.start ≤ offset + index ∧ offset + index < item.2.stop)) :
    Text.isBlank c = true := by
  induction h generalizing offset index with
  | endOfLine hgap => exact hgap c (List.mem_of_getElem? hc)
  | @token token gap text rest more hgap hspells hstops hmore ih =>
    rw [Lexeme.spanned, List.forall_mem_cons] at huncovered
    by_cases hingap : index < gap.length
    · rw [List.getElem?_append_left hingap] at hc
      exact hgap c (List.mem_of_getElem? hc)
    · by_cases hintext : index < gap.length + text.length
      · refine (huncovered.1 ⟨?_, ?_⟩).elim
        · show offset + gap.length ≤ offset + index
          omega
        · show offset + index < offset + gap.length + text.length
          omega
      · -- The character comes behind the token.
        rw [List.getElem?_append_right (by omega), List.getElem?_append_right (by omega)] at hc
        refine ih _ hc fun item hitem hcovered => huncovered.2 item hitem ?_
        dsimp only at hcovered
        omega

/-! ## Spans of a line -/

/-- How the spans of its tokens lie in a line. -/
structure Tiles (cs : List Char) (items : List (Token × Span)) : Prop where
  /-- The end of the line comes last, where the characters end, and nowhere else. -/
  last : ∃ words, items = words ++ [(.endOfLine, ⟨cs.length, cs.length⟩)] ∧
    words.length ≤ cs.length ∧ ∀ item ∈ words, item.1 ≠ .endOfLine
  /-- Every other span covers characters of the line. -/
  inside : ∀ item ∈ items, item.1 ≠ .endOfLine →
    item.2.start < item.2.stop ∧ item.2.stop ≤ cs.length
  /-- Spans follow one another and do not overlap. -/
  ordered : items.Pairwise fun a b => a.2.stop ≤ b.2.start
  /-- Characters that no span covers are blank. -/
  blank : ∀ index c, cs[index]? = some c →
    (∀ item ∈ items, ¬(item.2.start ≤ index ∧ index < item.2.stop)) → Text.isBlank c = true
  /-- The characters of its span spell a token, and they spell no other. -/
  spelled : ∀ item ∈ items, item.1 ≠ .endOfLine → Spells item.1 (item.2.text cs) ∧
    ∀ token, Spells token (item.2.text cs) → token = item.1
  /-- What comes behind a token does not carry it on, and nothing longer that starts at its
  place spells a token. -/
  longest : ∀ item ∈ items, item.1 ≠ .endOfLine →
    Stops item.1 (item.2.text cs) (cs.drop item.2.stop) ∧
      ∀ token text, Spells token text → text <+: cs.drop item.2.start →
        text.length ≤ item.2.stop - item.2.start

theorem spannedOf_eq_ok {line : String} {items : List (Token × Span)} :
    spannedOf line = .ok items ↔
      ∃ lexemes, Lexes line.toList lexemes ∧ items = Lexeme.spanned 0 lexemes := by
  rw [spannedOf, map_eq_ok]
  exact exists_congr fun lexemes => and_congr lexemes_eq_ok_iff eq_comm

theorem Span.text_append (front text rest : List Char) :
    Span.text ⟨front.length, front.length + text.length⟩ (front ++ (text ++ rest)) = text := by
  simp [Span.text, List.take_append]

/-- The spans of the lexemes of a line cover their texts. -/
theorem Lexes.map_span_text {cs : List Char} {lexemes : List Lexeme} (h : Lexes cs lexemes)
    (before : List Char) :
    (Lexeme.spanned before.length lexemes).map (fun item => item.2.text (before ++ cs)) =
      lexemes.map Lexeme.text := by
  induction h generalizing before with
  | @endOfLine gap hgap => simp [Lexeme.spanned, Span.text]
  | @token token gap text rest more hgap hspells hstops hmore ih =>
    have hline : before ++ (gap ++ (text ++ rest)) = before ++ (gap ++ text) ++ rest := by simp
    have hstop : before.length + gap.length + text.length = (before ++ (gap ++ text)).length := by
      simp [Nat.add_assoc]
    rw [Lexeme.spanned, List.map_cons, List.map_cons, hstop, hline, ih]
    congr 1
    show Span.text ⟨before.length + gap.length, _⟩ _ = text
    rw [← hstop, ← hline, ← List.append_assoc, ← List.length_append]
    exact Span.text_append _ _ _

/-- Lexemes that tile a line satisfy each part of the specification of its tokens. -/
theorem Lexes.tiles {cs : List Char} {lexemes : List Lexeme} (h : Lexes cs lexemes) :
    Tiles cs (Lexeme.spanned 0 lexemes) where
  last := by simpa using h.spanned_eq 0
  inside := by
    intro item hitem htoken
    obtain ⟨front, text, rest, hline, hspells, -, hspan⟩ := h.exists_append [] hitem htoken
    obtain ⟨c, more, rfl, -⟩ := hspells.exists_cons
    rw [List.nil_append] at hline
    rw [hspan, hline]
    simp
  ordered := pairwise_spanned 0 lexemes
  blank := by
    intro index c hc huncovered
    refine h.isBlank_of_uncovered 0 hc fun item hitem => ?_
    rw [Nat.zero_add]
    exact huncovered item hitem
  spelled := by
    intro item hitem htoken
    obtain ⟨front, text, rest, hline, hspells, -, hspan⟩ := h.exists_append [] hitem htoken
    rw [List.nil_append] at hline
    rw [hspan, hline, Span.text_append]
    exact ⟨hspells, fun token htext => htext.unique hspells⟩
  longest := by
    intro item hitem htoken
    obtain ⟨front, text, rest, hline, hspells, hstops, hspan⟩ := h.exists_append [] hitem htoken
    rw [List.nil_append] at hline
    have hstart : (front ++ (text ++ rest)).drop front.length = text ++ rest := by simp
    have hstop : (front ++ (text ++ rest)).drop (front.length + text.length) = rest := by
      simp [List.drop_append]
    rw [hspan, hline, Span.text_append, hstart, hstop, Nat.add_sub_cancel_left]
    exact ⟨hstops, fun token longer hlonger hfirst => hspells.length_le hstops hlonger hfirst⟩

/-- **The spans of a line tile it.**  The scanner comes to an end within one step more than there
are characters.  If it meets no fault, the spans of the tokens cover the line but for blanks, and
each token is the longest that is spelled at its place. -/
theorem tiles_of_spannedOf (line : String) :
    (Cursor.ofLine line).lexemesWithin (line.toList.length + 1) = some (lexemesOf line) ∧
      ∀ items, spannedOf line = .ok items →
        items.length ≤ line.toList.length + 1 ∧ Tiles line.toList items := by
  refine ⟨Cursor.lexemesWithin_eq (Nat.lt_succ_self _), fun items h => ?_⟩
  obtain ⟨lexemes, hlexes, rfl⟩ := spannedOf_eq_ok.mp h
  have htiles := hlexes.tiles
  obtain ⟨words, hitems, hlength, -⟩ := htiles.last
  refine ⟨?_, htiles⟩
  rw [hitems]
  simpa using hlength

/-- Operators of two characters, a fraction and a dot behind it, and blanks at the end. -/
theorem tiles_of_dottedNumber :
    spannedOf "x<=-1.5.y  " = .ok [(.name "x", ⟨0, 1⟩), (.comparator .lessEqual, ⟨1, 3⟩),
        (.number ⟨true, 15, 1, by decide, by decide⟩, ⟨3, 7⟩), (.dot, ⟨7, 8⟩),
        (.name "y", ⟨8, 9⟩), (.endOfLine, ⟨11, 11⟩)] ∧
      Tiles "x<=-1.5.y  ".toList [(.name "x", ⟨0, 1⟩), (.comparator .lessEqual, ⟨1, 3⟩),
        (.number ⟨true, 15, 1, by decide, by decide⟩, ⟨3, 7⟩), (.dot, ⟨7, 8⟩),
        (.name "y", ⟨8, 9⟩), (.endOfLine, ⟨11, 11⟩)] := by
  have hscan : spannedOf "x<=-1.5.y  " = .ok [(.name "x", ⟨0, 1⟩),
      (.comparator .lessEqual, ⟨1, 3⟩), (.number ⟨true, 15, 1, by decide, by decide⟩, ⟨3, 7⟩),
      (.dot, ⟨7, 8⟩), (.name "y", ⟨8, 9⟩), (.endOfLine, ⟨11, 11⟩)] := by cbv
  exact ⟨hscan, ((tiles_of_spannedOf _).2 _ hscan).2⟩

end RelationScript
