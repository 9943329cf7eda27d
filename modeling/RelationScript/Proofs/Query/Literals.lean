/-
# Quoted texts are opaque

What stands between a pair of quotes has no say in how a line is read.  The scanner cuts the text
off whatever it holds, and the readers do not look into it.

* `Lexes.append_quoted_iff` : a quoted text in a line that is scanned;
* `ofLine_quoted` : lines that are the same but for one quoted text.
-/
import RelationScript.Proofs.Query.Alike
import RelationScript.Proofs.Query.Sources

namespace RelationScript

open Token (Spells Stops)

/-! ## Scanning a quoted text -/

/-- The scanner cuts off what is spelled first, whatever comes behind it. -/
theorem lexes_append_iff {token : Token} {gap text rest : List Char} {lexemes : List Lexeme}
    (hgap : ∀ c ∈ gap, Text.isBlank c = true) (hspells : Spells token text)
    (hstops : Stops token text rest) :
    Lexes (gap ++ (text ++ rest)) lexemes ↔
      ∃ more, Lexes rest more ∧ lexemes = ⟨token, gap, text⟩ :: more := by
  constructor
  · intro h
    have hlexemes := lexemes_of_lexes h 0
    rw [lexemes_of_spells hgap hspells hstops] at hlexemes
    cases hmore : Cursor.lexemes ⟨0 + gap.length + text.length, rest⟩ with
    | error fault =>
      rw [hmore] at hlexemes
      cases hlexemes
    | ok more =>
      rw [hmore] at hlexemes
      exact ⟨more, lexes_of_lexemes hmore, (Except.ok.inj hlexemes).symm⟩
  · rintro ⟨more, hmore, rfl⟩
    exact .token hgap hspells hstops hmore

/-- **A quoted text is cut off whatever it holds.**  Behind a text that can be scanned comes the
quoted text, and then what the rest of the line is cut into. -/
theorem Lexes.append_quoted_iff {cs : List Char} {lexemes : List Lexeme} (h : Lexes cs lexemes)
    (rest : List Char) :
    ∃ front gap, ∀ content : String, '\x27' ∉ content.toList → ∀ lexemes',
      Lexes (cs ++ ('\x27' :: content.toList ++ ['\x27'] ++ rest)) lexemes' ↔
        ∃ more, Lexes rest more ∧ lexemes' = front ++ Lexeme.quoted gap content :: more := by
  induction h with
  | @endOfLine gap hgap =>
    refine ⟨[], gap, fun content hcontent lexemes' => ?_⟩
    exact lexes_append_iff hgap (Token.spells_quoted hcontent) trivial
  | @token token gap text tail lexemes hgap hspells hstops hmore ih =>
    obtain ⟨front, lastGap, ih⟩ := ih
    refine ⟨⟨token, gap, text⟩ :: front, lastGap, fun content hcontent lexemes' => ?_⟩
    have hquote : Stops token text (tail ++ ('\x27' :: content.toList ++ ['\x27'] ++ rest)) :=
      hstops.append_delimiter (by decide) _
    rw [List.append_assoc, List.append_assoc, lexes_append_iff hgap hspells hquote]
    constructor
    · rintro ⟨more, hlexes, rfl⟩
      obtain ⟨more, hrest, rfl⟩ := (ih content hcontent more).mp hlexes
      exact ⟨more, hrest, rfl⟩
    · rintro ⟨more, hrest, rfl⟩
      exact ⟨_, (ih content hcontent _).mpr ⟨more, hrest, rfl⟩, rfl⟩

/-! ## Lines -/

/-- Scanning does not look into a quoted text: the lexemes are the same but for that one. -/
theorem exists_lexemes_quoted {a b s s' : String} {lexemes : List Lexeme}
    (ha : ∃ lexemes, lexemesOf a = .ok lexemes) (hs : '\x27' ∉ s.toList) (hs' : '\x27' ∉ s'.toList)
    (h : lexemesOf (a ++ "'" ++ s ++ "'" ++ b) = .ok lexemes) :
    ∃ lexemes', lexemesOf (a ++ "'" ++ s' ++ "'" ++ b) = .ok lexemes' ∧
      Rewords (Lexeme.Reworded s s') 1 lexemes lexemes' := by
  obtain ⟨before, hbefore⟩ := ha
  obtain ⟨front, gap, hiff⟩ := (lexes_of_lexemes hbefore).append_quoted_iff b.toList
  have hline : ∀ content : String, (a ++ "'" ++ content ++ "'" ++ b).toList =
      (Cursor.ofLine a).rest ++ ('\x27' :: content.toList ++ ['\x27'] ++ b.toList) := by
    intro content
    simp [Cursor.ofLine]
  have hlexes := lexes_of_lexemes h
  rw [Cursor.ofLine, hline, hiff s hs] at hlexes
  obtain ⟨back, hback, rfl⟩ := hlexes
  refine ⟨front ++ Lexeme.quoted gap s' :: back, ?_, rewords_quoted front gap back⟩
  rw [lexemesOf, lexemes_eq_ok_iff, Cursor.ofLine, hline, hiff s' hs']
  exact ⟨back, hback, rfl⟩

/-- A line that reads as a statement does so with another text, and nothing else changes. -/
theorem exists_ofLine_quoted {a b s s' : String} {statement : Statement}
    (ha : ∃ lexemes, lexemesOf a = .ok lexemes) (hs : '\x27' ∉ s.toList) (hs' : '\x27' ∉ s'.toList)
    (h : Statement.ofLine (a ++ "'" ++ s ++ "'" ++ b) = .ok statement) :
    ∃ statement', Statement.ofLine (a ++ "'" ++ s' ++ "'" ++ b) = .ok statement' ∧
      Statement.Reworded s s' 1 statement statement' := by
  obtain ⟨lexemes, hlexemes, hread⟩ := ofLine_eq_ok.mp h
  obtain ⟨lexemes', hlexemes', hrewords⟩ := exists_lexemes_quoted ha hs hs' hlexemes
  have halike := readStatement_alike hrewords
  rw [hread] at halike
  generalize hread' : readStatement lexemes' = reading' at halike
  cases halike with
  | @ok i j _ statement' _ _ _ _ hstatement hused hrest hcount _ _ =>
    -- Nothing is left behind the statement, so it has taken up the one text.
    cases hrest with
    | nil =>
      obtain rfl : i = 1 := hcount
      exact ⟨statement', ofLine_eq_ok.mpr ⟨lexemes', hlexemes', hread'⟩, hstatement⟩

/-- **Quoted texts are opaque.**  Behind a text that can be scanned, a line with one quoted text
reads as a statement if and only if it does so with any other in its place.  The two statements
bind one name, and their queries are one context filled with the two texts. -/
theorem ofLine_quoted {a b s s' : String} (ha : ∃ lexemes, lexemesOf a = .ok lexemes)
    (hs : '\x27' ∉ s.toList) (hs' : '\x27' ∉ s'.toList) :
    ((∃ statement, Statement.ofLine (a ++ "'" ++ s ++ "'" ++ b) = .ok statement) ↔
        ∃ statement, Statement.ofLine (a ++ "'" ++ s' ++ "'" ++ b) = .ok statement) ∧
      ∀ statement statement', Statement.ofLine (a ++ "'" ++ s ++ "'" ++ b) = .ok statement →
        Statement.ofLine (a ++ "'" ++ s' ++ "'" ++ b) = .ok statement' →
          statement.target = statement'.target ∧
            ∃ context : Query.Context, statement.query = context.fill s ∧
              statement'.query = context.fill s' := by
  refine ⟨⟨?_, ?_⟩, ?_⟩
  · rintro ⟨statement, h⟩
    obtain ⟨statement', h', -⟩ := exists_ofLine_quoted ha hs hs' h
    exact ⟨statement', h'⟩
  · rintro ⟨statement', h'⟩
    obtain ⟨statement, h, -⟩ := exists_ofLine_quoted ha hs' hs h'
    exact ⟨statement, h⟩
  · intro statement statement' h h'
    obtain ⟨other, hother, hreworded⟩ := exists_ofLine_quoted ha hs hs' h
    obtain rfl : other = statement' := Except.ok.inj (hother.symm.trans h')
    exact ⟨hreworded.target, hreworded.query.exists_context⟩

/-- A text that closes the brackets, names another target and opens a comment. -/
theorem ofLine_quoted_of_brackets :
    (∃ lexemes, lexemesOf "A[x = " = .ok lexemes) ∧ '\x27' ∉ "a".toList ∧
      '\x27' ∉ ", y <= 1] -> C # \x5c [".toList ∧
        ∃ statement statement',
          Statement.ofLine ("A[x = " ++ "'" ++ "a" ++ "'" ++ "] -> B") = .ok statement ∧
            Statement.ofLine ("A[x = " ++ "'" ++ ", y <= 1] -> C # \x5c [" ++ "'" ++ "] -> B") =
                .ok statement' ∧
              statement.target = statement'.target ∧
                ∃ context : Query.Context, statement.query = context.fill "a" ∧
                  statement'.query = context.fill ", y <= 1] -> C # \x5c [" := by
  have hscan : ∃ lexemes, lexemesOf "A[x = " = .ok lexemes := ⟨_, by cbv⟩
  have hfirst : '\x27' ∉ "a".toList := by decide
  have hsecond : '\x27' ∉ ", y <= 1] -> C # \x5c [".toList := by decide
  have hread : ∃ statement,
      Statement.ofLine ("A[x = " ++ "'" ++ "a" ++ "'" ++ "] -> B") = .ok statement := ⟨_, by cbv⟩
  obtain ⟨hiff, hsame⟩ :=
    @ofLine_quoted "A[x = " "] -> B" "a" ", y <= 1] -> C # \x5c [" hscan hfirst hsecond
  obtain ⟨statement, h⟩ := hread
  obtain ⟨statement', h'⟩ := hiff.mp ⟨statement, h⟩
  exact ⟨hscan, hfirst, hsecond, statement, statement', h, h', hsame statement statement' h h'⟩

end RelationScript
