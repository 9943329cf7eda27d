/-
# Blanks between words

Blanks keep the words of a line apart and have no other meaning.  With other blanks before, between
and behind its words a line has the same tokens, and a reader sees no more of a line than these.

* `wordsOf` : the texts that write the tokens of a line;
* `interleave`, `IsSpacing` : words with blanks around them;
* `Lexes.exists_interleave` : the scanner finds the words again;
* `agree_readStatement` : lines with the same tokens read alike;
* `ofLine_interleave` : lines with the same words.
-/
import RelationScript.Proofs.Outcome
import RelationScript.Proofs.Query.Parsing
import RelationScript.Proofs.Token.Tiling

namespace RelationScript

open Token (Spells Stops)

/-! ## Words and the blanks around them -/

/-- The texts of the tokens of a line, but for its end. -/
def wordsOf (line : String) (items : List (Token × Span)) : List (List Char) :=
  items.dropLast.map fun item => item.2.text line.toList

/-- Words with a gap before each of them, and one more behind the last. -/
def interleave : List (List Char) → List (List Char) → List Char
  | [], _ => []
  | gap :: _, [] => gap
  | gap :: gaps, word :: words => gap ++ (word ++ interleave gaps words)

/-- Gaps that keep words apart: they are made up of blanks, and only the first and the last of them
may be empty. -/
structure IsSpacing (gaps : List (List Char)) : Prop where
  blank : ∀ gap ∈ gaps, ∀ c ∈ gap, Text.isBlank c = true
  inner : ∀ gap ∈ gaps.tail.dropLast, gap ≠ []

theorem IsSpacing.tail {gap : List Char} {gaps : List (List Char)} (h : IsSpacing (gap :: gaps)) :
    IsSpacing gaps where
  blank := (List.forall_mem_cons.mp h.blank).2
  inner := by
    intro other hother
    rw [← List.tail_dropLast] at hother
    exact h.inner other (List.mem_of_mem_tail hother)

/-- Behind a word comes a blank, or the end of the line. -/
theorem IsSpacing.isBlank_of_head? {gap : List Char} {gaps words : List (List Char)}
    (h : IsSpacing (gap :: gaps)) (hlength : gaps.length = words.length + 1) :
    ∀ c ∈ (interleave gaps words).head?, Text.isBlank c = true := by
  intro c hc
  cases gaps with
  | nil => simp at hlength
  | cons next gaps =>
    refine h.blank next (by simp) c ?_
    cases words with
    | nil => exact List.mem_of_mem_head? hc
    | cons word words =>
      -- There is one more gap behind the word, so this one is not the last.
      obtain ⟨last, gaps, rfl⟩ : ∃ last more, gaps = last :: more :=
        List.exists_cons_of_length_eq_add_one (by simpa using hlength)
      have hne : next ≠ [] := h.inner next (by simp)
      rw [interleave, List.head?_append_of_ne_nil _ hne] at hc
      exact List.mem_of_mem_head? hc

/-! ## The scanner finds words again -/

theorem Lexes.ne_nil {cs : List Char} {lexemes : List Lexeme} (h : Lexes cs lexemes) :
    lexemes ≠ [] := by
  cases h <;> exact List.cons_ne_nil _ _

/-- The words of a line are scanned alike with other gaps.  Each of them is cut off where it was,
since it is spelled as before, and no blank carries it on. -/
theorem Lexes.exists_interleave {cs : List Char} {lexemes : List Lexeme} (h : Lexes cs lexemes)
    {gaps : List (List Char)} (hgaps : IsSpacing gaps) (hlength : gaps.length = lexemes.length) :
    ∃ lexemes', Lexes (interleave gaps (lexemes.dropLast.map Lexeme.text)) lexemes' ∧
      lexemes'.map Lexeme.token = lexemes.map Lexeme.token := by
  induction h generalizing gaps with
  | endOfLine hgap =>
    obtain ⟨gap', rfl⟩ := List.length_eq_one_iff.mp hlength
    exact ⟨_, .endOfLine (hgaps.blank gap' List.mem_cons_self), rfl⟩
  | @token token gap text rest more hgap hspells hstops hmore ih =>
    obtain ⟨gap', gaps, rfl⟩ := List.exists_cons_of_length_eq_add_one hlength
    have hlength : gaps.length = more.length := by simpa using hlength
    obtain ⟨lexemes', hlexes, htokens⟩ := ih hgaps.tail hlength
    rw [List.dropLast_cons_of_ne_nil hmore.ne_nil, List.map_cons, interleave]
    refine ⟨⟨token, gap', text⟩ :: lexemes', .token ?_ hspells ?_ hlexes, ?_⟩
    · exact hgaps.blank gap' List.mem_cons_self
    · have hpos := List.length_pos_iff.mpr hmore.ne_nil
      refine Token.stops_of_isBlank token text (hgaps.isBlank_of_head? ?_)
      rw [List.length_map, List.length_dropLast]
      omega
    · rw [List.map_cons, List.map_cons, htokens]

/-- The words of a line are the texts of its lexemes before the end of the line. -/
theorem Lexes.wordsOf_eq {line : String} {lexemes : List Lexeme}
    (h : Lexes line.toList lexemes) :
    wordsOf line (Lexeme.spanned 0 lexemes) = lexemes.dropLast.map Lexeme.text := by
  have htext := h.map_span_text []
  rw [List.nil_append, List.length_nil] at htext
  rw [wordsOf, List.map_dropLast, List.map_dropLast, htext]

/-! ## Readers see tokens -/

/-- Lines with the same tokens read alike, but for the source texts of brackets. -/
theorem agree_readStatement {lexemes lexemes' : List Lexeme}
    (h : lexemes'.map Lexeme.token = lexemes.map Lexeme.token) :
    Agree (fun a b => a.bare = b.bare) (readStatement lexemes).1 (readStatement lexemes').1 := by
  have hread := congrArg Prod.fst (readStatement_map_bare lexemes)
  have hread' := congrArg Prod.fst (readStatement_map_bare lexemes')
  rw [map_bare, h, ← map_bare, hread] at hread'
  exact Agree.of_map_eq hread'

/-- **Blanks mean nothing.**  Take the words of a line that can be scanned, and write them with
other blanks before them, between them and behind them.  This line has the same tokens, and the
two are the same statement but for the source texts of brackets, or the same token of both does not
fit the grammar. -/
theorem ofLine_interleave {line line' : String} {items : List (Token × Span)}
    (h : spannedOf line = .ok items) {gaps : List (List Char)} (hgaps : IsSpacing gaps)
    (hlength : gaps.length = (wordsOf line items).length + 1)
    (hline : line'.toList = interleave gaps (wordsOf line items)) :
    (∃ items', spannedOf line' = .ok items' ∧ items'.map Prod.fst = items.map Prod.fst) ∧
      ((∃ statement statement', Statement.ofLine line = .ok statement ∧
          Statement.ofLine line' = .ok statement' ∧ statement.bare = statement'.bare) ∨
        ∃ fault, Statement.ofLine line = .error (.grammar fault) ∧
          Statement.ofLine line' = .error (.grammar fault)) := by
  obtain ⟨lexemes, hlexes, rfl⟩ := spannedOf_eq_ok.mp h
  rw [hlexes.wordsOf_eq] at hlength hline
  have hpos := List.length_pos_iff.mpr hlexes.ne_nil
  rw [List.length_map, List.length_dropLast, Nat.sub_add_cancel hpos] at hlength
  obtain ⟨lexemes', hlexes', htokens⟩ := hlexes.exists_interleave hgaps hlength
  rw [← hline] at hlexes'
  constructor
  · refine ⟨Lexeme.spanned 0 lexemes', spannedOf_eq_ok.mpr ⟨lexemes', hlexes', rfl⟩, ?_⟩
    rw [map_fst_spanned, map_fst_spanned, htokens]
  · rw [ofLine_eq (lexemes_of_lexes hlexes 0), ofLine_eq (lexemes_of_lexes hlexes' 0)]
    rcases (agree_readStatement htokens).cases_eq with
      ⟨statement, statement', hread, hread', hbare⟩ | ⟨fault, hread, hread'⟩
    · rw [hread, hread']
      exact Or.inl ⟨statement, statement', rfl, rfl, hbare⟩
    · rw [hread, hread']
      exact Or.inr ⟨fault, rfl, rfl⟩

/-- A selection without blanks, and with wide ones, a tab and a line feed between its words. -/
theorem ofLine_interleave_selection :
    ∃ statement statement', Statement.ofLine "A[x<=-1.5]->B" = .ok statement ∧
      Statement.ofLine "\u3000A [\tx <= -1.5\n]\u2003-> B" = .ok statement' ∧
      statement.bare = statement'.bare := by
  have hscan : ∃ items, spannedOf "A[x<=-1.5]->B" = .ok items ∧
      wordsOf "A[x<=-1.5]->B" items = [['A'], ['['], ['x'], ['<', '='], ['-', '1', '.', '5'], [']'],
        ['-', '>'], ['B']] := ⟨_, by cbv, by cbv⟩
  obtain ⟨items, hitems, hwords⟩ := hscan
  have hread : ∃ statement, Statement.ofLine "A[x<=-1.5]->B" = .ok statement := ⟨_, by cbv⟩
  obtain ⟨statement, hread⟩ := hread
  have hspaced := @ofLine_interleave _ "\u3000A [\tx <= -1.5\n]\u2003-> B" _ hitems
    [['\u3000'], [' '], ['\t'], [' '], [' '], ['\n'], ['\u2003'], [' '], []]
    ⟨by simp [Text.isBlank, Text.blankRanges], by decide⟩ (by rw [hwords]; rfl)
    (by rw [hwords]; decide)
  refine hspaced.2.resolve_right ?_
  rintro ⟨fault, hfault, -⟩
  rw [hread] at hfault
  cases hfault

end RelationScript
