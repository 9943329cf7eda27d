/-
# Reading is the grammar

The reader of lines accepts exactly the sentences of the grammar and builds their trees.  What
it keeps of the enclosing parentheses and of the operators to the left is matched with the
tokens read so far.

* `Derives.reads` : the reader gets past every phrase of the grammar;
* `derives_of_readFromOperand` : what the reader gets past is an expression of the grammar;
* `ofLine_eq_ok_iff_sentence` : lines, sentences and trees.
-/
import RelationScript.Proofs.Outcome
import RelationScript.Proofs.Query.Brackets

namespace RelationScript

open Lexeme (ofTokens)

namespace Grammar

/-! ## Phrases that grow to the right -/

theorem Derives.ofPrimary {tokens : List Token} {query : Query}
    (h : Derives .primary tokens query) : Derives .factor tokens query := by
  simpa using Derives.factor h [] (by simp)

theorem Derives.ofFactor {tokens : List Token} {query : Query}
    (h : Derives .factor tokens query) : Derives .term tokens query := by
  simpa using Derives.term h [] (by simp)

theorem Derives.ofTerm {tokens : List Token} {query : Query}
    (h : Derives .term tokens query) : Derives .expression tokens query := by
  simpa using Derives.expression h [] (by simp)

/-- Brackets behind a factor make a factor. -/
theorem Derives.restrict {tokens inner : List Token} {query : Query} {body : Body}
    (h : Derives .factor tokens query) (hbody : IsBody inner body) :
    Derives .factor (tokens ++ .openBracket :: inner ++ [.closeBracket]) (body.restrict query) := by
  cases h with
  | factor hfirst bodies hbodies =>
    have hall : ∀ item ∈ bodies ++ [(inner, body)], IsBody item.1 item.2 :=
      List.forall_mem_append.mpr ⟨hbodies, by simpa using hbody⟩
    simpa using Derives.factor hfirst (bodies ++ [(inner, body)]) hall

/-- A term times a factor is a term. -/
theorem Derives.times {left right : List Token} {a b : Query} (hleft : Derives .term left a)
    (hright : Derives .factor right b) :
    Derives .term (left ++ .times :: right) (.product a b) := by
  cases hleft with
  | term hfirst more hmore =>
    have hall : ∀ item ∈ more ++ [(right, b)], Derives .factor item.1 item.2 :=
      List.forall_mem_append.mpr ⟨hmore, by simpa using hright⟩
    simpa using Derives.term hfirst (more ++ [(right, b)]) hall

/-- An expression combined with a term is an expression. -/
theorem Derives.combine {left right : List Token} {a b : Query} (operator : SetOperator)
    (hleft : Derives .expression left a) (hright : Derives .term right b) :
    Derives .expression (left ++ .setOperator operator :: right) (.combine operator a b) := by
  cases hleft with
  | expression hfirst more hmore =>
    have hall : ∀ item ∈ more ++ [(operator, right, b)], Derives .term item.2.1 item.2.2 :=
      List.forall_mem_append.mpr ⟨hmore, by simpa using hright⟩
    simpa using Derives.expression hfirst (more ++ [(operator, right, b)]) hall

/-! ## Completeness -/

/-- How the tokens of a phrase take the reader on: from a place before an operand to one behind
its last operand, where `query` is what the phrase amounts to. -/
def Reads : Phrase → List Token → Query → Prop
  | .primary, tokens, query | .factor, tokens, query => ∀ level outer rest,
    readFromOperand level outer (ofTokens (tokens ++ rest)) =
      readFromOperator level outer query (ofTokens rest)
  | .term, tokens, query => ∀ terms outer rest, ∃ factors last,
    Level.term ⟨terms, factors⟩ last = query ∧
      readFromOperand ⟨terms, none⟩ outer (ofTokens (tokens ++ rest)) =
        readFromOperator ⟨terms, factors⟩ outer last (ofTokens rest)
  | .expression, tokens, query => ∀ outer rest, ∃ level last,
    Level.total level last = query ∧
      readFromOperand .start outer (ofTokens (tokens ++ rest)) =
        readFromOperator level outer last (ofTokens rest)

/-- Brackets behind an operand are applied to it one after the other. -/
theorem readFromOperator_bodies (bodies : List (List Token × Body))
    (h : ∀ item ∈ bodies, IsBody item.1 item.2) (level : Level) (outer : List Level)
    (query : Query) (rest : List Token) :
    readFromOperator level outer query
        (ofTokens (bodies.flatMap (fun item => .openBracket :: item.1 ++ [.closeBracket]) ++
          rest)) =
      readFromOperator level outer (bodies.foldl (fun base item => item.2.restrict base) query)
        (ofTokens rest) := by
  induction bodies generalizing query with
  | nil => rfl
  | cons item bodies ih =>
    rw [List.forall_mem_cons] at h
    have hbracket := readBracket_of_isBody h.1 query
      ((bodies.flatMap fun item => .openBracket :: item.1 ++ [.closeBracket]) ++ rest)
    rw [List.flatMap_cons, List.cons_append, List.cons_append, List.cons_append, ofTokens_cons,
      readFromOperator_eq]
    simp only [nextToken, List.tail_cons, List.append_assoc, List.singleton_append]
    refine (congrArg (Reading.andThen · (readFromOperator level outer)) hbracket).trans ?_
    exact ih h.2 _

/-- Factors behind product signs are collected in the level, from the left. What the level holds
then is not told, only the product that it makes of it. -/
theorem readFromOperator_factors (more : List (List Token × Query))
    (h : ∀ item ∈ more, Reads .factor item.1 item.2) (terms : Option (Query × SetOperator))
    (factors : Option Query) (query : Query) (outer : List Level) (rest : List Token) :
    ∃ factors' last,
      Level.term ⟨terms, factors'⟩ last =
        more.foldl (fun left item => .product left item.2) (Level.term ⟨terms, factors⟩ query) ∧
      readFromOperator ⟨terms, factors⟩ outer query
          (ofTokens ((more.flatMap fun item => .times :: item.1) ++ rest)) =
        readFromOperator ⟨terms, factors'⟩ outer last (ofTokens rest) := by
  induction more generalizing factors query with
  | nil => exact ⟨factors, query, rfl, rfl⟩
  | cons item more ih =>
    rw [List.forall_mem_cons] at h
    obtain ⟨factors', last, hterm, hread⟩ :=
      ih h.2 (some (Level.term ⟨terms, factors⟩ query)) item.2
    refine ⟨factors', last, hterm, ?_⟩
    rw [List.flatMap_cons, List.cons_append, List.cons_append, ofTokens_cons, readFromOperator_eq]
    simp only [nextToken, List.tail_cons, List.append_assoc]
    rw [h.1]
    exact hread

/-- Terms behind set operators are collected in the level, from the left. What the level holds then
is not told, only the query that it makes of it. -/
theorem readFromOperator_terms (more : List (SetOperator × List Token × Query))
    (h : ∀ item ∈ more, Reads .term item.2.1 item.2.2) (level : Level) (query : Query)
    (outer : List Level) (rest : List Token) :
    ∃ level' last,
      Level.total level' last =
        more.foldl (fun left item => .combine item.1 left item.2.2) (level.total query) ∧
      readFromOperator level outer query
          (ofTokens ((more.flatMap fun item => .setOperator item.1 :: item.2.1) ++ rest)) =
        readFromOperator level' outer last (ofTokens rest) := by
  induction more generalizing level query with
  | nil => exact ⟨level, query, rfl, rfl⟩
  | cons item more ih =>
    rw [List.forall_mem_cons] at h
    obtain ⟨factors, last, hterm, hitem⟩ := h.1 (some (level.total query, item.1)) outer
      ((more.flatMap fun item => .setOperator item.1 :: item.2.1) ++ rest)
    -- What has been read goes before the operator, and the next term starts without factors.
    obtain ⟨level', last', htotal, hread⟩ :=
      ih h.2 ⟨some (level.total query, item.1), factors⟩ last
    refine ⟨level', last', ?_, ?_⟩
    · rw [htotal, Level.total, hterm]
      rfl
    · rw [List.flatMap_cons, List.cons_append, List.cons_append, ofTokens_cons, readFromOperator_eq]
      simp only [nextToken, List.tail_cons, List.append_assoc]
      exact hitem.trans hread

/-- **Completeness of a phrase.**  The reader gets past whatever the grammar derives. -/
theorem Derives.reads {phrase : Phrase} {tokens : List Token} {query : Query}
    (h : Derives phrase tokens query) : Reads phrase tokens query := by
  induction h with
  | name name =>
    intro level outer rest
    rw [readFromOperand_eq]
    rfl
  | parens h ih =>
    intro level outer rest
    -- The level at hand is put aside for the parentheses and taken up again behind them.
    obtain ⟨inner, last, htotal, hread⟩ := ih (level :: outer) (.closeParen :: rest)
    rw [List.cons_append, List.cons_append, List.append_assoc, ofTokens_cons, readFromOperand_eq]
    simp only [nextToken, List.tail_cons, List.singleton_append]
    rw [hread, readFromOperator_eq, ← htotal]
    rfl
  | factor hfirst bodies hbodies ih =>
    intro level outer rest
    rw [List.append_assoc, ih level outer]
    exact readFromOperator_bodies bodies hbodies level outer _ rest
  | term hfirst more hmore ihfirst ihmore =>
    intro terms outer rest
    obtain ⟨factors, last, hterm, hread⟩ :=
      readFromOperator_factors more ihmore terms none _ outer rest
    refine ⟨factors, last, hterm, ?_⟩
    rw [List.append_assoc, ihfirst]
    exact hread
  | expression hfirst more hmore ihfirst ihmore =>
    intro outer rest
    obtain ⟨factors, last, hterm, hfirst⟩ := ihfirst none outer
      ((more.flatMap fun item => .setOperator item.1 :: item.2.1) ++ rest)
    obtain ⟨level, last', htotal, hread⟩ :=
      readFromOperator_terms more ihmore ⟨none, factors⟩ last outer rest
    refine ⟨level, last', ?_, ?_⟩
    · rw [htotal, Level.total, hterm]
    · rw [List.append_assoc]
      exact hfirst.trans hread

/-! ## Soundness -/

/-- The tokens read for the terms before the present one, with the operator behind them. -/
inductive ReadTerms : Option (Query × SetOperator) → List Token → Prop
  | none : ReadTerms none []
  | some {tokens : List Token} {query : Query} (h : Derives .expression tokens query.bare)
      (operator : SetOperator) :
      ReadTerms (some (query, operator)) (tokens ++ [.setOperator operator])

/-- The tokens read for the factors before the present one, with the product sign behind them. -/
inductive ReadFactors : Option Query → List Token → Prop
  | none : ReadFactors none []
  | some {tokens : List Token} {query : Query} (h : Derives .term tokens query.bare) :
      ReadFactors (some query) (tokens ++ [.times])

/-- The tokens read of an expression before its present operand. -/
inductive ReadLevel : Level → List Token → Prop
  | mk (level : Level) {left right : List Token} (hterms : ReadTerms level.terms left)
      (hfactors : ReadFactors level.factors right) : ReadLevel level (left ++ right)

/-- The tokens read before the innermost open parenthesis, and that one. -/
inductive ReadOuter : List Level → List Token → Prop
  | nil : ReadOuter [] []
  | cons {level : Level} {outer : List Level} {before tokens : List Token}
      (houter : ReadOuter outer before) (hlevel : ReadLevel level tokens) :
      ReadOuter (level :: outer) (before ++ tokens ++ [.openParen])

theorem ReadLevel.start : ReadLevel .start [] :=
  .mk .start .none .none

/-- With a factor behind it, what has been read since the last set operator is a term. -/
theorem ReadFactors.derives_term {level : Level} {before tokens : List Token} {query : Query}
    (h : ReadFactors level.factors before) (hquery : Derives .factor tokens query.bare) :
    Derives .term (before ++ tokens) (level.term query).bare := by
  obtain ⟨terms, factors⟩ := level
  cases h with
  | none => exact hquery.ofFactor
  | some hleft => simpa [Level.term, Query.bare] using hleft.times hquery

/-- With a factor behind it, what has been read of a level is an expression. -/
theorem ReadLevel.derives_expression {level : Level} {before tokens : List Token} {query : Query}
    (h : ReadLevel level before) (hquery : Derives .factor tokens query.bare) :
    Derives .expression (before ++ tokens) (level.total query).bare := by
  obtain ⟨hterms, hfactors⟩ := h
  have hterm := hfactors.derives_term hquery
  obtain ⟨terms, factors⟩ := level
  cases hterms with
  | none => exact hterm.ofTerm
  | some hleft operator => simpa [Level.total, Query.bare] using hleft.combine operator hterm

/-- A product sign leaves a term that waits for a factor. -/
theorem ReadLevel.afterTimes {level : Level} {before tokens : List Token} {query : Query}
    (h : ReadLevel level before) (hquery : Derives .factor tokens query.bare) :
    ReadLevel (level.afterTimes query) (before ++ tokens ++ [.times]) := by
  obtain ⟨hterms, hfactors⟩ := h
  have hterm := ReadFactors.some (hfactors.derives_term hquery)
  simpa using ReadLevel.mk (level.afterTimes query) hterms hterm

/-- A set operator leaves an expression that waits for a term. -/
theorem ReadLevel.afterOperator {level : Level} {before tokens : List Token} {query : Query}
    (h : ReadLevel level before) (hquery : Derives .factor tokens query.bare)
    (operator : SetOperator) :
    ReadLevel (level.afterOperator query operator)
      (before ++ tokens ++ [.setOperator operator]) := by
  have hterms := ReadTerms.some (h.derives_expression hquery) operator
  simpa using ReadLevel.mk (level.afterOperator query operator) hterms .none

mutual

/-- What the reader accepts is derived by the grammar. The invariant is what has been read of each
level; the induction goes along with the reader, by the number of lexemes left. -/
theorem derives_of_readFromOperand {level : Level} {outer : List Level} {lexemes rest : List Lexeme}
    {result : Query} {before tokens : List Token} (houter : ReadOuter outer before)
    (hlevel : ReadLevel level tokens)
    (h : readFromOperand level outer lexemes = (.ok result, rest)) :
    ∃ words, lexemes.map Lexeme.token = words ++ rest.map Lexeme.token ∧
      Derives .expression (before ++ tokens ++ words) result.bare := by
  rw [readFromOperand_eq] at h
  split at h
  next name hnext =>
    obtain ⟨words, hwords, hderives⟩ :=
      derives_of_readFromOperator houter hlevel (Derives.name name).ofPrimary h
    refine ⟨.name name :: words, ?_, by simpa using hderives⟩
    rw [map_token_eq hnext (by simp), hwords]
    rfl
  next hnext =>
    obtain ⟨words, hwords, hderives⟩ := derives_of_readFromOperand (houter.cons hlevel) .start h
    refine ⟨.openParen :: words, ?_, by simpa using hderives⟩
    rw [map_token_eq hnext (by simp), hwords]
    rfl
  next => exact absurd h unexpected_ne_ok
termination_by lexemes.length
decreasing_by
  · exact length_tail_lt ‹nextToken lexemes = .name _› (by simp)
  · exact length_tail_lt ‹nextToken lexemes = .openParen› (by simp)

/-- The other half of `derives_of_readFromOperand`. -/
theorem derives_of_readFromOperator {level : Level} {outer : List Level} {query : Query}
    {lexemes rest : List Lexeme} {result : Query} {before tokens operand : List Token}
    (houter : ReadOuter outer before) (hlevel : ReadLevel level tokens)
    (hquery : Derives .factor operand query.bare)
    (h : readFromOperator level outer query lexemes = (.ok result, rest)) :
    ∃ words, lexemes.map Lexeme.token = words ++ rest.map Lexeme.token ∧
      Derives .expression (before ++ tokens ++ operand ++ words) result.bare := by
  rw [readFromOperator_eq] at h
  split at h
  next hnext =>
    -- The brackets become part of the operand, and the level stays as it is.
    obtain ⟨restricted, left, hbracket, h⟩ := Reading.andThen_eq_ok.mp h
    obtain ⟨inner, closing, body, hinner, hclosing, hbody, rfl⟩ := isBody_of_readBracket hbracket
    have hrestricted := hquery.restrict hbody
    rw [← Body.bare_query] at hrestricted
    obtain ⟨words, hwords, hderives⟩ :=
      derives_of_readFromOperator houter hlevel hrestricted h
    refine ⟨.openBracket :: inner.map Lexeme.token ++ .closeBracket :: words, ?_,
      by simpa using hderives⟩
    rw [map_token_eq hnext (by simp), hinner, List.map_append, List.map_cons, hclosing, hwords]
    simp
  next hnext =>
    obtain ⟨words, hwords, hderives⟩ :=
      derives_of_readFromOperand houter (hlevel.afterTimes hquery) h
    refine ⟨.times :: words, ?_, by simpa using hderives⟩
    rw [map_token_eq hnext (by simp), hwords]
    rfl
  next operator hnext =>
    obtain ⟨words, hwords, hderives⟩ :=
      derives_of_readFromOperand houter (hlevel.afterOperator hquery operator) h
    refine ⟨.setOperator operator :: words, ?_, by simpa using hderives⟩
    rw [map_token_eq hnext (by simp), hwords]
    rfl
  next =>
    cases houter with
    | nil =>
      -- No parenthesis is open, so the expression ends here.
      obtain ⟨rfl, rfl⟩ : level.total query = result ∧ lexemes = rest := by simpa using h
      exact ⟨[], rfl, by simpa using hlevel.derives_expression hquery⟩
    | cons houter henclosing =>
      simp only at h
      split at h
      next hnext =>
        -- What stands in the parentheses is the operand of the enclosing level.
        have hparens := (hlevel.derives_expression hquery).parens.ofPrimary
        obtain ⟨words, hwords, hderives⟩ :=
          derives_of_readFromOperator houter henclosing hparens h
        refine ⟨.closeParen :: words, ?_, by simpa using hderives⟩
        rw [map_token_eq hnext (by simp), hwords]
        rfl
      next => exact absurd h unexpected_ne_ok
termination_by lexemes.length
decreasing_by
  · exact length_lt_of_readBracket ‹nextToken lexemes = .openBracket› hbracket
  · exact length_tail_lt ‹nextToken lexemes = .times› (by decide)
  · exact length_tail_lt ‹nextToken lexemes = .setOperator _› (by simp)
  · exact length_tail_lt ‹nextToken lexemes = .closeParen› (by decide)

end

/-! ## Sentences -/

/-- An expression is read to its end, if an arrow or the end of the line follows. -/
theorem readQuery_of_derives {words : List Token} {query : Query}
    (h : Derives .expression words query) (rest : List Token)
    (hrest : nextToken (ofTokens rest) = .arrow ∨ nextToken (ofTokens rest) = .endOfLine) :
    readQuery (ofTokens (words ++ rest)) = (.ok query, ofTokens rest) := by
  obtain ⟨level, last, htotal, hread⟩ := h.reads [] rest
  rw [readQuery, hread, readFromOperator_eq, ← htotal]
  rcases hrest with hrest | hrest <;> rw [hrest]

/-- An expression has one tree only. -/
theorem Derives.expression_unique {words : List Token} {a b : Query}
    (ha : Derives .expression words a) (hb : Derives .expression words b) : a = b := by
  have hreads := (readQuery_of_derives ha [] (Or.inr rfl)).symm.trans
    (readQuery_of_derives hb [] (Or.inr rfl))
  simpa using hreads

/-- A sentence has one meaning, as the reader finds just one. -/
theorem Sentence.unique {words : List Token} {a b : Query} {target other : String}
    (ha : Sentence words a target) (hb : Sentence words b other) : a = b ∧ target = other := by
  obtain ⟨left, rfl, ha⟩ := ha
  obtain ⟨right, hwords, hb⟩ := hb
  obtain ⟨rfl, htail⟩ := List.append_inj' hwords rfl
  obtain rfl : target = other := by simpa using htail
  exact ⟨ha.expression_unique hb, rfl⟩

theorem readStatement_of_sentence {words : List Token} {query : Query} {target : String}
    (h : Sentence words query target) :
    (readStatement (ofTokens (words ++ [.endOfLine]))).1 = .ok ⟨query, target⟩ := by
  obtain ⟨left, rfl, h⟩ := h
  rw [List.append_assoc, readStatement, readQuery_of_derives h _ (Or.inl rfl)]
  rfl

/-- The end of the line stands behind its last word. -/
theorem eq_of_append_endOfLine {words left : List Token} {rest : List Lexeme}
    (hend : .endOfLine ∉ words) (hrest : nextToken rest = .endOfLine)
    (hleft : left.getLast? ≠ some .endOfLine)
    (h : words ++ [.endOfLine] = left ++ rest.map Lexeme.token) : words = left := by
  cases rest with
  | nil =>
    rw [List.map_nil, List.append_nil] at h
    exact absurd (by rw [← h, List.getLast?_concat]) hleft
  | cons lexeme more =>
    -- The words hold no end of line, so it is the first token that has not been read.
    rw [List.map_cons, show lexeme.token = .endOfLine from hrest] at h
    exact ((List.append_cons_inj_of_notMem hend (by simp)).mp h).1

/-- What the reader of statements gets past: an expression, an arrow, a name and the end. -/
theorem derives_of_readStatement {lexemes rest : List Lexeme} {statement : Statement}
    (h : readStatement lexemes = (.ok statement, rest)) :
    ∃ left last, lexemes.map Lexeme.token =
        left ++ [.arrow, .name statement.target] ++ last.map Lexeme.token ∧
      Derives .expression left statement.query.bare ∧ nextToken last = .endOfLine ∧
      last.tail = rest := by
  obtain ⟨query, behind, hquery, htarget⟩ := Reading.andThen_eq_ok.mp h
  obtain ⟨left, hleft, hderives⟩ := derives_of_readFromOperand .nil .start hquery
  obtain ⟨rfl, harrow, hname, hlast, htail⟩ := readTarget_eq_ok.mp htarget
  refine ⟨left, behind.tail.tail, ?_, hderives, hlast, htail⟩
  rw [hleft, map_token_eq harrow (by simp), map_token_eq hname (by simp)]
  simp

/-- The reader accepts nothing but sentences. -/
theorem sentence_of_readStatement {lexemes : List Lexeme} {words : List Token}
    {statement : Statement} (hwords : lexemes.map Lexeme.token = words ++ [.endOfLine])
    (hend : .endOfLine ∉ words) (h : (readStatement lexemes).1 = .ok statement) :
    Sentence words statement.query.bare statement.target := by
  obtain ⟨left, last, hleft, hderives, hlast, -⟩ := derives_of_readStatement (Prod.ext h rfl)
  rw [hwords] at hleft
  exact ⟨left, eq_of_append_endOfLine hend hlast (by simp) hleft, hderives⟩

/-- A statement goes up to the end of the line. -/
theorem rest_eq_nil_of_readStatement {lexemes rest : List Lexeme} {words : List Token}
    {statement : Statement} (hwords : lexemes.map Lexeme.token = words ++ [.endOfLine])
    (hend : .endOfLine ∉ words) (h : readStatement lexemes = (.ok statement, rest)) :
    rest = [] := by
  obtain ⟨left, last, hleft, -, hlast, rfl⟩ := derives_of_readStatement h
  rw [hwords] at hleft
  obtain rfl := eq_of_append_endOfLine hend hlast (by simp) hleft
  -- Behind the words there is but one lexeme, the end of the line.
  obtain ⟨lexeme, hlexeme, -⟩ :=
    List.map_eq_singleton_iff.mp (List.append_cancel_left hleft).symm
  rw [hlexeme]
  rfl

/-- The tokens of a line are words with the end of the line behind them. -/
theorem map_token_of_lexemes {cursor : Cursor} {lexemes : List Lexeme}
    (h : cursor.lexemes = .ok lexemes) :
    ∃ words, lexemes.map Lexeme.token = words ++ [.endOfLine] ∧ .endOfLine ∉ words := by
  fun_induction Cursor.lexemes cursor generalizing lexemes with
  | case1 => simp at h
  | case2 cursor lexeme after hnext hend =>
    obtain rfl : [lexeme] = lexemes := by simpa using h
    exact ⟨[], by simp [hend], by simp⟩
  | case3 cursor lexeme after hnext hend more hmore ih =>
    obtain rfl : lexeme :: more = lexemes := by simpa using h
    obtain ⟨words, hwords, hnot⟩ := ih hmore
    refine ⟨lexeme.token :: words, by simp [hwords], ?_⟩
    rw [List.mem_cons, not_or]
    exact ⟨fun h => hend h.symm, hnot⟩
  | case4 => simp at h

/-- The reader accepts the sentences, and reads their trees. -/
theorem readStatement_eq_ok_iff {lexemes : List Lexeme} {words : List Token} {query : Query}
    {target : String} (hwords : lexemes.map Lexeme.token = words ++ [.endOfLine])
    (hend : .endOfLine ∉ words) :
    (∃ statement, (readStatement lexemes).1 = .ok statement ∧
      statement.query.bare = query ∧ statement.target = target) ↔ Sentence words query target := by
  constructor
  · rintro ⟨statement, hread, rfl, rfl⟩
    exact sentence_of_readStatement hwords hend hread
  · intro h
    -- The lexemes read as the bare tokens do, and those have been read already.
    have hbare := congrArg Prod.fst (readStatement_map_bare lexemes)
    rw [map_bare, hwords, readStatement_of_sentence h] at hbare
    cases hread : (readStatement lexemes).1 with
    | error fault => simp [Reading.erase, hread, Except.map] at hbare
    | ok statement =>
      obtain ⟨rfl, rfl⟩ : query = statement.query.bare ∧ target = statement.target := by
        simpa [Reading.erase, hread, Except.map, Statement.bare] using hbare
      exact ⟨statement, rfl, rfl, rfl⟩

end Grammar

/-! ## Lines -/

theorem ofLine_eq {line : String} {lexemes : List Lexeme} (h : lexemesOf line = .ok lexemes) :
    Statement.ofLine line = (readStatement lexemes).1.mapError .grammar := by
  rw [Statement.ofLine, h]
  cases hread : (readStatement lexemes).1 <;> simp [hread, Except.mapError]

/-- A statement is read off all the lexemes of its line. -/
theorem ofLine_eq_ok {line : String} {statement : Statement} :
    Statement.ofLine line = .ok statement ↔
      ∃ lexemes, lexemesOf line = .ok lexemes ∧ readStatement lexemes = (.ok statement, []) := by
  constructor
  · intro h
    cases hlexemes : lexemesOf line with
    | error fault => simp [Statement.ofLine, hlexemes] at h
    | ok lexemes =>
      rw [ofLine_eq hlexemes, mapError_eq_ok] at h
      obtain ⟨words, hwords, hend⟩ := Grammar.map_token_of_lexemes hlexemes
      have hread : readStatement lexemes = (.ok statement, (readStatement lexemes).2) :=
        Prod.ext h rfl
      rw [Grammar.rest_eq_nil_of_readStatement hwords hend hread] at hread
      exact ⟨lexemes, rfl, hread⟩
  · rintro ⟨lexemes, hlexemes, hread⟩
    rw [ofLine_eq hlexemes, mapError_eq_ok, hread]

open Grammar in
/-- **Lines are the sentences of the grammar.**  Where a line can be cut into tokens, it is a
statement exactly if these are a sentence, and the statement is the one tree of the sentence;
any other tokens are a fault of grammar. -/
theorem ofLine_eq_ok_iff_sentence {line : String} {lexemes : List Lexeme}
    (h : lexemesOf line = .ok lexemes) :
    ∃ words, lexemes.map Lexeme.token = words ++ [.endOfLine] ∧ .endOfLine ∉ words ∧
      (∀ query target,
        (∃ statement, Statement.ofLine line = .ok statement ∧
          statement.query.bare = query ∧ statement.target = target) ↔
            Sentence words query target) ∧
      (∀ query target query' target', Sentence words query target →
        Sentence words query' target' → query = query' ∧ target = target') ∧
      ((∃ fault, Statement.ofLine line = .error (.grammar fault)) ↔
        ¬ ∃ query target, Sentence words query target) := by
  obtain ⟨words, hwords, hend⟩ := map_token_of_lexemes h
  rw [ofLine_eq h]
  have hiff : ∀ query target, (∃ statement, (readStatement lexemes).1 = .ok statement ∧
      statement.query.bare = query ∧ statement.target = target) ↔ Sentence words query target :=
    fun _ _ => readStatement_eq_ok_iff hwords hend
  refine ⟨words, hwords, hend, ?_, fun _ _ _ _ ha hb => ha.unique hb, ?_⟩
  · intro query target
    rw [← hiff]
    cases (readStatement lexemes).1 <;> simp [Except.mapError]
  · simp only [← hiff]
    cases (readStatement lexemes).1 <;> simp [Except.mapError]

/-- Operators of three precedences and a qualified column: a line and its tree. -/
theorem sentence_of_line :
    ∃ lexemes words, lexemesOf "A | (B) * B[A.B.x <= -1] -> R" = .ok lexemes ∧
      lexemes.map Lexeme.token = words ++ [.endOfLine] ∧
      Grammar.Sentence words
        (.combine .union (.named "A") (.product (.named "B") (.select (.named "B")
          ⟨⟨some "A.B", "x"⟩, .lessEqual,
            .literal (.number ⟨true, 1, 0, by decide, by decide⟩)⟩ "")))
        "R" := by
  have hlexemes : ∃ lexemes, lexemesOf "A | (B) * B[A.B.x <= -1] -> R" = .ok lexemes :=
    ⟨_, by cbv⟩
  obtain ⟨lexemes, h⟩ := hlexemes
  obtain ⟨words, hwords, -, hiff, -, -⟩ := ofLine_eq_ok_iff_sentence h
  exact ⟨lexemes, words, h, hwords, (hiff _ _).mp ⟨_, by cbv, by cbv, by cbv⟩⟩

end RelationScript
