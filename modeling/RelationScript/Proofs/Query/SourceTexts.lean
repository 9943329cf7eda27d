/-
# Source texts of brackets

Each projection and each selection in a statement keeps what its brackets hold as the line has it:
from the first token between them to the last, without the blanks around.  The text is enough to
write the brackets again.

* `Query.brackets` : the brackets of a query in the order of the line;
* `Encloses`, `encloses_of_readStatement` : the brackets among the lexemes of a line;
* `Bracketed` : the brackets of a line and the characters between them;
* `ofLine_bracketed` : a part of a line in other brackets;
* `brackets_of_ofLine` : the texts of a statement.
-/
import RelationScript.Proofs.Query.Sources
import RelationScript.Proofs.Token.Runs

namespace RelationScript

open Grammar (Body IsBody)

/-! ## Brackets of queries -/

namespace Query

/-- The brackets of a query with their texts, in the order in which a line writes them. -/
def brackets : Query → List (Body × String)
  | named _ => []
  | combine _ left right => left.brackets ++ right.brackets
  | product left right => left.brackets ++ right.brackets
  | project base columns text => base.brackets ++ [(.columns columns, text)]
  | select base condition text => base.brackets ++ [(.condition condition, text)]

theorem brackets_query (base : Query) (text : String) (body : Body) :
    (body.query base text).brackets = base.brackets ++ [(body, text)] := by
  cases body <;> rfl

/-- The brackets of a query are those of its projections and selections. -/
theorem mem_brackets_of_mem_subqueries {body : Body} {base query : Query} {text : String}
    (h : body.query base text ∈ query.subqueries) : (body, text) ∈ query.brackets := by
  induction query with
  | named name => cases body <;> simp [subqueries, Body.query] at h
  | combine operator left right ihleft ihright | product left right ihleft ihright =>
    rcases List.mem_cons.mp h with heq | h
    · cases body <;> cases heq
    · exact List.mem_append.mpr ((List.mem_append.mp h).imp ihleft ihright)
  | project base' inside text' ih | select base' inside text' ih =>
    rcases List.mem_cons.mp h with heq | h
    · cases body <;> cases heq
      exact List.mem_append_right _ List.mem_cons_self
    · exact List.mem_append_left _ (ih h)

end Query

/-! ## Brackets among lexemes -/

/-- Up to the lexemes `rest` there are these brackets, one pair behind the other.  Between a pair
are the tokens of its body, which its text writes. -/
inductive Encloses : List Lexeme → List (Body × String) → List Lexeme → Prop
  | nil (rest : List Lexeme) : Encloses rest [] rest
  | outside {lexeme : Lexeme} {more rest : List Lexeme} {brackets : List (Body × String)}
      (hopen : lexeme.token ≠ .openBracket) (hclose : lexeme.token ≠ .closeBracket)
      (hmore : Encloses more brackets rest) : Encloses (lexeme :: more) brackets rest
  | pair {opening closing : Lexeme} {inner more rest : List Lexeme} {body : Body}
      {brackets : List (Body × String)} (hopen : opening.token = .openBracket)
      (hclose : closing.token = .closeBracket) (hbody : IsBody (inner.map Lexeme.token) body)
      (hmore : Encloses more brackets rest) :
      Encloses (opening :: (inner ++ closing :: more))
        ((body, String.ofList (Lexeme.written inner)) :: brackets) rest

/-- A token that is no bracket is stepped over. -/
theorem Encloses.of_tail {lexemes rest : List Lexeme} {brackets : List (Body × String)}
    {token : Token} (hnext : nextToken lexemes = token)
    (htoken : token ∉ [Token.openBracket, .closeBracket, .endOfLine])
    (h : Encloses lexemes.tail brackets rest) : Encloses lexemes brackets rest := by
  obtain ⟨hopen, hclose, hend⟩ : token ≠ .openBracket ∧ token ≠ .closeBracket ∧
      token ≠ .endOfLine := by simpa using htoken
  obtain ⟨first, rfl, hlexemes⟩ := eq_cons_of_nextToken hnext hend
  rw [hlexemes]
  exact .outside hopen hclose h

/-- The brackets of two parts are those of both, in order. -/
theorem Encloses.append {lexemes middle rest : List Lexeme} {a b : List (Body × String)}
    (hfront : Encloses lexemes a middle) (hback : Encloses middle b rest) :
    Encloses lexemes (a ++ b) rest := by
  induction hfront with
  | nil => exact hback
  | outside hopen hclose hmore ih => exact .outside hopen hclose (ih hback)
  | pair hopen hclose hbody hmore ih => exact .pair hopen hclose hbody (ih hback)

/-- The brackets read before the present operand. -/
def Level.brackets (level : Level) : List (Body × String) :=
  (level.terms.toList.flatMap fun item => item.1.brackets) ++
    level.factors.toList.flatMap Query.brackets

namespace Level

variable (level : Level) (query : Query)

@[simp] theorem brackets_start : start.brackets = [] := rfl

@[simp] theorem brackets_total :
    (level.total query).brackets = level.brackets ++ query.brackets := by
  rcases level with ⟨_ | ⟨left, operator⟩, _ | factor⟩ <;>
    simp [total, term, brackets, Query.brackets]

@[simp] theorem brackets_afterTimes :
    (level.afterTimes query).brackets = level.brackets ++ query.brackets := by
  rcases level with ⟨_ | ⟨left, operator⟩, _ | factor⟩ <;>
    simp [afterTimes, term, brackets, Query.brackets]

@[simp] theorem brackets_afterOperator (operator : SetOperator) :
    (level.afterOperator query operator).brackets = level.brackets ++ query.brackets := by
  simp [afterOperator, brackets]

end Level

mutual

/-- The brackets of what the reader accepts are those that the lexemes enclose. The induction goes
along with the reader, and the open levels hold the brackets before. -/
theorem encloses_of_readFromOperand {level : Level} {outer : List Level}
    {lexemes rest : List Lexeme} {result : Query}
    (h : readFromOperand level outer lexemes = (.ok result, rest)) :
    ∃ brackets, Encloses lexemes brackets rest ∧
      result.brackets = outer.reverse.flatMap Level.brackets ++ level.brackets ++ brackets := by
  rw [readFromOperand_eq] at h
  split at h
  next name hnext =>
    obtain ⟨brackets, htail, hresult⟩ := encloses_of_readFromOperator h
    exact ⟨brackets, htail.of_tail hnext (by simp), by simpa [Query.brackets] using hresult⟩
  next hnext =>
    obtain ⟨brackets, htail, hresult⟩ := encloses_of_readFromOperand h
    exact ⟨brackets, htail.of_tail hnext (by simp), by simpa using hresult⟩
  next => exact absurd h unexpected_ne_ok
termination_by lexemes.length
decreasing_by
  · exact length_tail_lt ‹nextToken lexemes = .name _› (by simp)
  · exact length_tail_lt ‹nextToken lexemes = .openParen› (by simp)

/-- The other half of `encloses_of_readFromOperand`. -/
theorem encloses_of_readFromOperator {level : Level} {outer : List Level} {query : Query}
    {lexemes rest : List Lexeme} {result : Query}
    (h : readFromOperator level outer query lexemes = (.ok result, rest)) :
    ∃ brackets, Encloses lexemes brackets rest ∧
      result.brackets = outer.reverse.flatMap Level.brackets ++ level.brackets ++ query.brackets ++
        brackets := by
  rw [readFromOperator_eq] at h
  split at h
  next hnext =>
    -- The brackets are the last ones of the operand, and more may follow.
    obtain ⟨opening, hopen, hlexemes⟩ := eq_cons_of_nextToken hnext (by simp)
    obtain ⟨restricted, left, hbracket, h⟩ := Reading.andThen_eq_ok.mp h
    obtain ⟨inner, closing, body, htail, hclose, hbody, rfl⟩ :=
      Grammar.isBody_of_readBracket hbracket
    obtain ⟨brackets, hleft, hresult⟩ := encloses_of_readFromOperator h
    rw [hlexemes, htail]
    refine ⟨_, .pair hopen hclose hbody hleft, ?_⟩
    rw [hresult, Query.brackets_query]
    simp
  next hnext =>
    obtain ⟨brackets, htail, hresult⟩ := encloses_of_readFromOperand h
    exact ⟨brackets, htail.of_tail hnext (by simp), by simpa using hresult⟩
  next operator hnext =>
    obtain ⟨brackets, htail, hresult⟩ := encloses_of_readFromOperand h
    exact ⟨brackets, htail.of_tail hnext (by simp), by simpa using hresult⟩
  next =>
    cases outer with
    | nil =>
      obtain ⟨rfl, rfl⟩ : level.total query = result ∧ lexemes = rest := by simpa using h
      exact ⟨[], .nil lexemes, by simp⟩
    | cons enclosing outer =>
      simp only at h
      split at h
      next hnext =>
        obtain ⟨brackets, htail, hresult⟩ := encloses_of_readFromOperator h
        exact ⟨brackets, htail.of_tail hnext (by simp), by simpa using hresult⟩
      next => exact absurd h unexpected_ne_ok
termination_by lexemes.length
decreasing_by
  · exact length_lt_of_readBracket ‹nextToken lexemes = .openBracket› hbracket
  · exact length_tail_lt ‹nextToken lexemes = .times› (by decide)
  · exact length_tail_lt ‹nextToken lexemes = .setOperator _› (by simp)
  · exact length_tail_lt ‹nextToken lexemes = .closeParen› (by decide)

end

/-- The brackets of a statement are those of its line. -/
theorem encloses_of_readStatement {lexemes : List Lexeme} {statement : Statement}
    (h : readStatement lexemes = (.ok statement, [])) :
    Encloses lexemes statement.query.brackets [] := by
  obtain ⟨query, behind, hquery, htarget⟩ := Reading.andThen_eq_ok.mp h
  obtain ⟨brackets, hlexemes, hbrackets⟩ := encloses_of_readFromOperand hquery
  obtain ⟨rfl, harrow, hname, hend, htail⟩ := readTarget_eq_ok.mp htarget
  -- The end of the line encloses nothing, nor do the arrow and the name before it.
  have hlast : Encloses behind.tail.tail [] [] := by
    cases hrest : behind.tail.tail with
    | nil => exact .nil []
    | cons lexeme more =>
      rw [hrest] at hend htail
      obtain rfl : more = [] := htail
      have htoken : lexeme.token = .endOfLine := hend
      exact .outside (by simp [htoken]) (by simp [htoken]) (.nil [])
  have hbehind : Encloses behind [] [] :=
    (hlast.of_tail hname (by simp)).of_tail harrow (by simp)
  have hstatement := hlexemes.append hbehind
  rw [List.append_nil] at hstatement
  simpa [hbrackets] using hstatement

/-- The brackets of a statement are those in its line. -/
theorem encloses_of_ofLine {line : String} {statement : Statement}
    (h : Statement.ofLine line = .ok statement) :
    ∃ lexemes, Lexes line.toList lexemes ∧ Encloses lexemes statement.query.brackets [] := by
  obtain ⟨lexemes, hlexemes, hread⟩ := ofLine_eq_ok.mp h
  exact ⟨lexemes, lexes_of_lexemes hlexemes, encloses_of_readStatement hread⟩

/-! ## Brackets in lines -/

/-- The characters of the range are the text with blanks around it, or none. -/
def Span.Holds (range : Span) (line text : List Char) : Prop :=
  ∃ before after, (∀ c ∈ before, Text.isBlank c = true) ∧ (∀ c ∈ after, Text.isBlank c = true) ∧
    range.text line = before ++ (text ++ after)

/-- The tokens of a line have these brackets, one pair behind the other.  Between a pair stand the
tokens of its body, and in the line nothing but its text with blanks around it. -/
inductive Bracketed (line : List Char) : List (Token × Span) → List (Body × String) → Prop
  | nil : Bracketed line [] []
  | outside {token : Token} {span : Span} {more : List (Token × Span)}
      {brackets : List (Body × String)} (hopen : token ≠ .openBracket)
      (hclose : token ≠ .closeBracket) (hmore : Bracketed line more brackets) :
      Bracketed line ((token, span) :: more) brackets
  | pair {opening closing : Span} {inner more : List (Token × Span)} {body : Body} {text : String}
      {brackets : List (Body × String)} (hbody : IsBody (inner.map Prod.fst) body)
      (htext : Span.Holds ⟨opening.stop, closing.start⟩ line text.toList)
      (hmore : Bracketed line more brackets) :
      Bracketed line ((.openBracket, opening) :: (inner ++ (.closeBracket, closing) :: more))
        ((body, text) :: brackets)

/-- The brackets among the lexemes of a line are found between the spans of its tokens. -/
theorem Encloses.bracketed {lexemes rest : List Lexeme} {brackets : List (Body × String)}
    (h : Encloses lexemes brackets rest) (hrest : rest = [])
    (hgap : ∀ lexeme ∈ lexemes, ∀ c ∈ lexeme.gap, Text.isBlank c = true) (before : List Char) :
    Bracketed (before ++ Lexeme.source lexemes) (Lexeme.spanned before.length lexemes)
      brackets := by
  induction h generalizing before with
  | nil =>
    rw [hrest]
    exact .nil
  | @outside lexeme more _ _ hopen hclose hmore ih =>
    have hbracketed := ih hrest (List.forall_mem_cons.mp hgap).2
      (before ++ (lexeme.gap ++ lexeme.text))
    rw [Lexeme.spanned]
    refine .outside hopen hclose ?_
    simpa [Nat.add_assoc] using hbracketed
  | @pair opening closing inner more _ body _ hopen hclose hbody hmore ih =>
    obtain ⟨-, hgap⟩ := List.forall_mem_cons.mp hgap
    obtain ⟨hinner, hgap⟩ := List.forall_mem_append.mp hgap
    obtain ⟨hclosing, hgap⟩ := List.forall_mem_cons.mp hgap
    obtain ⟨gap, hblank, hsource⟩ := Lexeme.exists_source_eq hinner
    -- In front of the body stands the opening bracket, and behind it the closing one.
    let front := before ++ (opening.gap ++ opening.text)
    have hbracketed := ih hrest hgap
      (front ++ Lexeme.source inner ++ (closing.gap ++ closing.text))
    have hrange : Span.text
        ⟨front.length, front.length + (Lexeme.source inner ++ closing.gap).length⟩
        (before ++ Lexeme.source (opening :: (inner ++ closing :: more))) =
          Lexeme.source inner ++ closing.gap := by
      have hline : before ++ Lexeme.source (opening :: (inner ++ closing :: more)) =
          front ++
            (Lexeme.source inner ++ closing.gap ++ (closing.text ++ Lexeme.source more)) := by
        simp [front]
      rw [hline, Span.text_append]
    rw [Lexeme.spanned, spanned_append, Lexeme.spanned, hopen, hclose]
    refine .pair ?_ ⟨gap, closing.gap, hblank, hclosing, ?_⟩ ?_
    · rw [map_fst_spanned]
      exact hbody
    · rw [String.toList_ofList, ← List.append_assoc, ← hsource, ← hrange]
      simp [front, Nat.add_assoc]
    · simpa [front, Nat.add_assoc] using hbracketed

/-- The text of brackets is written by the lexemes between them. -/
theorem Encloses.exists_inner {lexemes rest : List Lexeme} {brackets : List (Body × String)}
    (h : Encloses lexemes brackets rest) {body : Body} {text : String}
    (hmem : (body, text) ∈ brackets) :
    ∃ front inner back, lexemes = front ++ (inner ++ back) ∧ back ≠ [] ∧
      IsBody (inner.map Lexeme.token) body ∧ text = String.ofList (Lexeme.written inner) := by
  induction h with
  | nil => simp at hmem
  | @outside lexeme more _ _ hopen hclose hmore ih =>
    obtain ⟨front, inner, back, rfl, hback, hinner⟩ := ih hmem
    exact ⟨lexeme :: front, inner, back, rfl, hback, hinner⟩
  | @pair opening closing inner more _ body' _ hopen hclose hbody hmore ih =>
    rcases List.mem_cons.mp hmem with heq | hmem
    · obtain ⟨rfl, rfl⟩ := Prod.mk.inj heq
      exact ⟨[opening], inner, closing :: more, rfl, List.cons_ne_nil _ _, hbody, rfl⟩
    · obtain ⟨front, inner', back, rfl, hback, hinner⟩ := ih hmem
      exact ⟨opening :: (inner ++ closing :: front), inner', back, by simp, hback, hinner⟩

/-- The tokens between brackets are a part of the line. -/
theorem exists_scans_of_mem_brackets {line : String} {statement : Statement}
    (h : Statement.ofLine line = .ok statement) {body : Body} {text : String}
    (hmem : (body, text) ∈ statement.query.brackets) :
    ∃ cs inner rest, Scans cs inner rest ∧ IsBody (inner.map Lexeme.token) body ∧
      text = String.ofList (Lexeme.written inner) := by
  obtain ⟨lexemes, hlexes, hencloses⟩ := encloses_of_ofLine h
  obtain ⟨front, inner, back, rfl, hback, hinner⟩ := hencloses.exists_inner hmem
  obtain ⟨cs, -, hlexes⟩ := hlexes.exists_scans (by simp [hback])
  obtain ⟨rest, hscans, -⟩ := hlexes.exists_scans hback
  exact ⟨cs, inner, rest, hscans, hinner⟩

/-! ## Brackets of one relation -/

/-- The lexemes of an arrow and a name, up to the end of the line. -/
def arrowLexemes (target : String) : List Lexeme :=
  [⟨.arrow, [' '], ['-', '>']⟩, ⟨.name target, [' '], target.toList⟩, ⟨.endOfLine, [], []⟩]

/-- What stands behind the last bracket is an arrow and a name. -/
theorem lexes_arrowLexemes {target : String} (htarget : Text.isName target = true) :
    Lexes (' ' :: '-' :: '>' :: ' ' :: target.toList) (arrowLexemes target) := by
  have hspace : ∀ c ∈ [' '], Text.isBlank c = true :=
    List.forall_mem_singleton.mpr (by decide)
  have hend : Lexes [] [⟨.endOfLine, [], []⟩] := .endOfLine (by simp)
  have hname := Lexes.token hspace (.name htarget) (Token.stops_nil _ _) hend
  rw [List.append_nil] at hname
  exact @Lexes.token .arrow [' '] ['-', '>'] _ _ hspace (.symbol rfl) trivial hname

/-- A body between brackets behind a name is applied to that name. -/
theorem readStatement_bracketed {inner : List Lexeme} {body : Body}
    (hbody : IsBody (inner.map Lexeme.token) body) (name target : String) :
    readStatement (⟨.name name, [], name.toList⟩ :: ⟨.openBracket, [], ['[']⟩ ::
        (inner ++ ⟨.closeBracket, [], [']']⟩ :: arrowLexemes target)) =
      (.ok ⟨body.query (.named name) (String.ofList (Lexeme.written inner)), target⟩, []) := by
  have hbracket := @Grammar.readBracket_append inner ⟨.closeBracket, [], [']']⟩ body hbody rfl
    (.named name) (arrowLexemes target)
  rw [readStatement, readQuery, readFromOperand_eq]
  simp only [nextToken, List.tail_cons]
  rw [readFromOperator_eq]
  simp only [nextToken, List.tail_cons]
  rw [hbracket]
  simp only [Reading.andThen]
  rw [readFromOperator_eq]
  rfl

/-- **A part of a line in other brackets.**  Lexemes that are a body are read again between the
brackets of any name, with the text that writes them. -/
theorem ofLine_bracketed {cs rest : List Char} {inner : List Lexeme} {body : Body}
    (hinner : Scans cs inner rest) (hbody : IsBody (inner.map Lexeme.token) body)
    {name target : String} (hname : Text.isName name = true)
    (htarget : Text.isName target = true) :
    Statement.ofLine
        (name ++ "[" ++ String.ofList (Lexeme.written inner) ++ "] -> " ++ target) =
      .ok ⟨body.query (.named name) (String.ofList (Lexeme.written inner)), target⟩ := by
  -- From the end of the line to its start, the lexemes are put together again.
  have hclose := Scans.symbol .closeBracket rfl trivial
    (.nil (' ' :: '-' :: '>' :: ' ' :: target.toList))
  have hbracket := Scans.symbol .openBracket rfl trivial
    ((hinner.flush (by decide) _).append hclose)
  have hlexes : Lexes
      (name ++ "[" ++ String.ofList (Lexeme.written inner) ++ "] -> " ++ target).toList
      (⟨.name name, [], name.toList⟩ :: ⟨.openBracket, [], ['[']⟩ ::
        (Lexeme.flush inner ++ ⟨.closeBracket, [], [']']⟩ :: arrowLexemes target)) := by
    simpa using (Scans.name hname (by rintro c ⟨⟩; decide) hbracket).lexes
      (lexes_arrowLexemes htarget)
  have hread := @readStatement_bracketed (Lexeme.flush inner) body (by simpa using hbody) name
    target
  rw [Lexeme.written_flush] at hread
  rw [ofLine_eq (lexemes_of_lexes hlexes 0), hread]
  rfl

/-- Characters that are a body without blanks in front are read between the brackets of any name. -/
theorem ofLine_of_scans {text : String} {rest : List Char} {first : Lexeme} {used : List Lexeme}
    {body : Body} (hscans : Scans (text.toList ++ rest) (first :: used) rest)
    (hgap : first.gap = []) (hbody : IsBody ((first :: used).map Lexeme.token) body)
    {name target : String} (hname : Text.isName name = true)
    (htarget : Text.isName target = true) :
    Statement.ofLine (name ++ "[" ++ text ++ "] -> " ++ target) =
      .ok ⟨body.query (.named name) text, target⟩ := by
  have hsource : text.toList = Lexeme.source (first :: used) :=
    List.append_cancel_right hscans.eq_append
  have hwritten : String.ofList (Lexeme.written (first :: used)) = text := by
    rw [← String.toList_inj, String.toList_ofList, hsource]
    simp [Lexeme.written, Lexeme.source, hgap]
  rw [← hwritten]
  exact ofLine_bracketed hscans hbody hname htarget

/-- The brackets of a line are those of its statement. -/
theorem exists_bracketed {line : String} {statement : Statement}
    (h : Statement.ofLine line = .ok statement) :
    ∃ items, spannedOf line = .ok items ∧
      Bracketed line.toList items statement.query.brackets := by
  obtain ⟨lexemes, hlexes, hencloses⟩ := encloses_of_ofLine h
  refine ⟨_, spannedOf_eq_ok.mpr ⟨lexemes, hlexes, rfl⟩, ?_⟩
  have hbracketed := hencloses.bracketed rfl hlexes.isBlank_of_mem_gap []
  rw [hlexes.eq_source]
  exact hbracketed

/-- The texts of brackets begin and end with tokens, not with blanks. -/
theorem isTrimmed_of_mem_brackets {line : String} {statement : Statement}
    (h : Statement.ofLine line = .ok statement) {body : Body} {text : String}
    (hmem : (body, text) ∈ statement.query.brackets) : Text.IsTrimmed text.toList := by
  obtain ⟨cs, inner, rest, hscans, hbody, rfl⟩ := exists_scans_of_mem_brackets h hmem
  rw [String.toList_ofList]
  exact hscans.isTrimmed fun hinner => hbody.ne_nil (by rw [hinner, List.map_nil])

/-- **The texts of brackets are cut from the line, and write the brackets again.**  A line that
reads as a statement has the pairs of brackets that the statement has, in the same order.  Between
the characters of a pair stands the text, with blanks around it or none, and the text itself begins
and ends with other characters.  Between the brackets of any name it makes the same brackets. -/
theorem brackets_of_ofLine {line : String} {statement : Statement}
    (h : Statement.ofLine line = .ok statement) :
    (∃ items, spannedOf line = .ok items ∧
        Bracketed line.toList items statement.query.brackets) ∧
      ∀ base body text, body.query base text ∈ statement.query.subqueries →
        (body, text) ∈ statement.query.brackets ∧ Text.IsTrimmed text.toList ∧
          ∀ name target, Text.isName name = true → Text.isName target = true →
            Statement.ofLine (name ++ "[" ++ text ++ "] -> " ++ target) =
              .ok ⟨body.query (.named name) text, target⟩ := by
  refine ⟨exists_bracketed h, ?_⟩
  intro base body text hpart
  have hmem := Query.mem_brackets_of_mem_subqueries hpart
  obtain ⟨cs, inner, rest, hscans, hbody, rfl⟩ := exists_scans_of_mem_brackets h hmem
  exact ⟨hmem, isTrimmed_of_mem_brackets h hmem,
    fun name target hname htarget => ofLine_bracketed hscans hbody hname htarget⟩

/-- A closing bracket in quotes, and brackets behind parentheses with wide blanks around them. -/
theorem brackets_of_quotedBracket :
    ∃ statement, Statement.ofLine "(A [ x=']' ] * B)\u3000[\tA.x >=  -1.50 ]->R" = .ok statement ∧
      statement.query = .select (.product (.select (.named "A")
          ⟨⟨none, "x"⟩, .equal, .literal (.text "]")⟩ "x=']'") (.named "B"))
        ⟨⟨some "A", "x"⟩, .greaterEqual,
          .literal (.number ⟨true, 150, 2, by decide, by decide⟩)⟩ "A.x >=  -1.50" ∧
      (∃ items, spannedOf "(A [ x=']' ] * B)\u3000[\tA.x >=  -1.50 ]->R" = .ok items ∧
        Bracketed "(A [ x=']' ] * B)\u3000[\tA.x >=  -1.50 ]->R".toList items
          statement.query.brackets) ∧
      Text.IsTrimmed "A.x >=  -1.50".toList ∧
      Statement.ofLine ("X" ++ "[" ++ "x=']'" ++ "] -> " ++ "T") =
        .ok ⟨.select (.named "X") ⟨⟨none, "x"⟩, .equal, .literal (.text "]")⟩ "x=']'", "T"⟩ := by
  have hread : ∃ statement,
      Statement.ofLine "(A [ x=']' ] * B)\u3000[\tA.x >=  -1.50 ]->R" = .ok statement ∧
        statement.query = .select (.product (.select (.named "A")
            ⟨⟨none, "x"⟩, .equal, .literal (.text "]")⟩ "x=']'") (.named "B"))
          ⟨⟨some "A", "x"⟩, .greaterEqual,
            .literal (.number ⟨true, 150, 2, by decide, by decide⟩)⟩ "A.x >=  -1.50" :=
    ⟨_, by cbv, by cbv⟩
  obtain ⟨statement, h, hquery⟩ := hread
  obtain ⟨hitems, hparts⟩ := brackets_of_ofLine h
  rw [hquery] at hparts
  have houter := hparts (.product (.select (.named "A")
      ⟨⟨none, "x"⟩, .equal, .literal (.text "]")⟩ "x=']'") (.named "B"))
    (.condition ⟨⟨some "A", "x"⟩, .greaterEqual,
      .literal (.number ⟨true, 150, 2, by decide, by decide⟩)⟩) "A.x >=  -1.50"
    (by decide)
  have hinner := hparts (.named "A")
    (.condition ⟨⟨none, "x"⟩, .equal, .literal (.text "]")⟩) "x=']'" (by decide)
  exact ⟨statement, h, hquery, hitems, houter.2.1,
    hinner.2.2 "X" "T" (by decide) (by decide)⟩

end RelationScript
