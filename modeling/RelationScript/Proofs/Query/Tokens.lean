/-
# Reading sees tokens only

The readers of queries choose their way by the tokens alone.  The blanks between the tokens
and the characters that write them show up in the source texts of brackets and nowhere else.

* `readColumn_eq`, `readFromOperator_eq`, … : each reader as a choice by the next token;
* `Lexeme.bare`, `Reading.erase` : lexemes and readings without what writes the tokens;
* `readStatement_map_bare` : reading commutes with erasing.
-/
import Mathlib
import RelationScript.Proofs.Query.Grammar

namespace RelationScript

variable {α β : Type}

/-! ## Reading by the next token -/

/-- A token that does not come next is not the next one. -/
theorem nextToken_ne {lexemes : List Lexeme} {token : Token} (htoken : token ≠ .endOfLine)
    (h : ∀ gap text rest, lexemes = ⟨token, gap, text⟩ :: rest → False) :
    nextToken lexemes ≠ token := by
  cases lexemes with
  | nil => exact htoken.symm
  | cons lexeme rest =>
    rintro rfl
    exact h lexeme.gap lexeme.text rest rfl

/-- The next token tells whether the column goes on. -/
theorem readDotted_eq (lexemes : List Lexeme) :
    readDotted lexemes =
      if nextToken lexemes = .dot then
        match nextToken lexemes.tail with
        | .name name => (readDotted lexemes.tail.tail).map (name :: ·)
        | _ => unexpected .columnNameAfterDot lexemes.tail
      else (.ok [], lexemes) := by
  fun_cases readDotted lexemes with
  | case1 => simp [nextToken]
  | case2 gap text rest hrest =>
    have hname (name : String) : nextToken rest ≠ .name name := nextToken_ne (by simp) (hrest name)
    rw [if_pos (show nextToken (⟨.dot, gap, text⟩ :: rest) = .dot from rfl), List.tail_cons]
    split
    next name hnext => exact absurd hnext (hname name)
    next => rfl
  | case3 _ _ hdot => rw [if_neg (nextToken_ne (by decide) hdot)]

/-- A column begins with a name. -/
theorem readColumn_eq (lexemes : List Lexeme) :
    readColumn lexemes =
      match nextToken lexemes with
      | .name first => (readDotted lexemes.tail).map (.ofPath first)
      | _ => unexpected .columnName lexemes := by
  rcases lexemes with _ | ⟨⟨token, _, _⟩, rest⟩
  · rfl
  · cases token <;> rfl

/-- A comma promises one more column. -/
theorem readColumns_eq (lexemes : List Lexeme) :
    readColumns lexemes = (readColumn lexemes).andThen fun column rest =>
      if nextToken rest = .comma then (readColumns rest.tail).map (column :: ·)
      else (.ok [column], rest) := by
  fun_cases readColumns lexemes with
  | case1 column gap text rest h => simp [h, Reading.andThen, nextToken]
  | case2 column rest hcomma h =>
    simp [h, Reading.andThen, nextToken_ne (by decide) hcomma]
  | case3 fault rest h => simp [h, Reading.andThen]

/-- What is compared with is told apart by its first token. -/
theorem readComparand_eq (lexemes : List Lexeme) :
    readComparand lexemes =
      match nextToken lexemes with
      | .number value => (.ok (.literal (.number value)), lexemes.tail)
      | .text value => (.ok (.literal (.text value)), lexemes.tail)
      | .name _ => (readColumn lexemes).map .column
      | _ => unexpected .comparand lexemes := by
  rcases lexemes with _ | ⟨⟨token, _, _⟩, rest⟩
  · rfl
  · cases token <;> rfl

/-- Behind the column of a condition a comparator has to stand. -/
theorem readComparison_eq (column : ColumnRef) (lexemes : List Lexeme) :
    readComparison column lexemes =
      match nextToken lexemes with
      | .comparator comparator =>
        (readComparand lexemes.tail).map fun operand => ⟨column, comparator, operand⟩
      | _ => unexpected .comparator lexemes := by
  rcases lexemes with _ | ⟨⟨token, _, _⟩, rest⟩
  · rfl
  · cases token <;> rfl

/-- Where an operand is expected, an opening parenthesis puts the level at hand aside. -/
theorem readFromOperand_eq (level : Level) (outer : List Level) (lexemes : List Lexeme) :
    readFromOperand level outer lexemes =
      match nextToken lexemes with
      | .name name => readFromOperator level outer (.named name) lexemes.tail
      | .openParen => readFromOperand .start (level :: outer) lexemes.tail
      | _ => unexpected .operand lexemes := by
  rcases lexemes with _ | ⟨⟨token, _, _⟩, rest⟩
  · rw [readFromOperand] <;> simp [nextToken]
  · cases token <;> rw [readFromOperand] <;> simp [nextToken]

/-- Behind an operand there are brackets, operators, and the end of the innermost level. -/
theorem readFromOperator_eq (level : Level) (outer : List Level) (query : Query)
    (lexemes : List Lexeme) :
    readFromOperator level outer query lexemes =
      match nextToken lexemes with
      | .openBracket =>
        (readBracket query lexemes.tail).andThen (readFromOperator level outer)
      | .times => readFromOperand (level.afterTimes query) outer lexemes.tail
      | .setOperator operator =>
        readFromOperand (level.afterOperator query operator) outer lexemes.tail
      | next =>
        match outer with
        | [] => (.ok (level.total query), lexemes)
        | enclosing :: outer =>
          if next = .closeParen then
            readFromOperator enclosing outer (level.total query) lexemes.tail
          else unexpected (.token .closeParen) lexemes := by
  fun_cases readFromOperator level outer query lexemes with
  | case1 => simp_all [Reading.andThen, nextToken]
  | case2 => simp_all [Reading.andThen, nextToken]
  | case3 => simp [nextToken]
  | case4 => simp [nextToken]
  -- In the cases left no operator comes next, so the expression is at its end.
  | case5 _ hbracket htimes hoperator =>
    split
    next h => exact absurd h (nextToken_ne (by decide) hbracket)
    next h => exact absurd h (nextToken_ne (by decide) htimes)
    next operator h => exact absurd h (nextToken_ne (by simp) (hoperator operator))
    next => rfl
  | case6 => simp [nextToken]
  | case7 _ _ _ hclose hbracket htimes hoperator =>
    split
    next h => exact absurd h (nextToken_ne (by decide) hbracket)
    next h => exact absurd h (nextToken_ne (by decide) htimes)
    next operator h => exact absurd h (nextToken_ne (by simp) (hoperator operator))
    next =>
      dsimp only
      rw [if_neg (nextToken_ne (by decide) hclose)]

/-! ## Erasing what writes the tokens -/

/-- The lexeme with its token alone. -/
def Lexeme.bare (lexeme : Lexeme) : Lexeme := ⟨lexeme.token, [], []⟩

/-- A reading with its yield changed and its rest erased. -/
def Reading.erase (f : α → β) (reading : Reading α) : Reading β :=
  (reading.1.map f, reading.2.map Lexeme.bare)

/-- The level without source texts. -/
def Level.bare (level : Level) : Level :=
  ⟨level.terms.map fun (query, operator) => (query.bare, operator), level.factors.map Query.bare⟩

/-- Texts and blanks do not change which token is next. -/
@[simp] theorem nextToken_map_bare (lexemes : List Lexeme) :
    nextToken (lexemes.map Lexeme.bare) = nextToken lexemes := by
  cases lexemes <;> rfl

/-- Without texts and blanks, the same tokens are behind the next one. -/
@[simp] theorem tail_map_bare (lexemes : List Lexeme) :
    (lexemes.map Lexeme.bare).tail = lexemes.tail.map Lexeme.bare :=
  List.map_tail.symm

theorem unexpected_map_bare (f : α → β) (expected : Expectation) (lexemes : List Lexeme) :
    unexpected expected (lexemes.map Lexeme.bare) = (unexpected expected lexemes).erase f := by
  simp [unexpected, Reading.erase, Except.map]

/-- Values may be mapped before or after texts and blanks are taken away, by maps that commute. -/
theorem Reading.map_erase {γ δ : Type} {f : α → β} {g : α → γ} {g' : β → δ} {f' : γ → δ}
    (reading : Reading α) (h : ∀ value, g' (f value) = f' (g value)) :
    (reading.erase f).map g' = (reading.map g).erase f' := by
  rcases reading with ⟨fault | value, rest⟩
  · rfl
  · simp [Reading.map, Reading.andThen, Reading.erase, Except.map, h]

/-- Two readings in a row do without texts and blanks if each of them does. -/
theorem Reading.andThen_erase {γ δ : Type} {f : α → β} {g : γ → δ}
    {next : α → List Lexeme → Reading γ} {next' : β → List Lexeme → Reading δ}
    (reading : Reading α)
    (h : ∀ value rest, reading = (.ok value, rest) →
      next' (f value) (rest.map Lexeme.bare) = (next value rest).erase g) :
    (reading.erase f).andThen next' = (reading.andThen next).erase g := by
  rcases reading with ⟨fault | value, rest⟩
  · rfl
  · exact h value rest rfl

/-- Each token that is used up leaves fewer lexemes; the end of the line alone is never used up. -/
theorem length_tail_lt {lexemes : List Lexeme} {token : Token} (h : nextToken lexemes = token)
    (htoken : token ≠ .endOfLine) : lexemes.tail.length < lexemes.length := by
  cases lexemes with
  | nil => exact absurd h.symm htoken
  | cons lexeme rest => exact Nat.lt_succ_self _

/-- The reader of brackets leaves less than the opening bracket and what follows it. -/
theorem length_lt_of_readBracket {query : Query} {lexemes rest : List Lexeme}
    {outcome : Except Unexpected Query} (hnext : nextToken lexemes = .openBracket)
    (h : readBracket query lexemes.tail = (outcome, rest)) : rest.length < lexemes.length := by
  have hle := (readBracket_suffix query lexemes.tail).length_le
  rw [h] at hle
  exact Nat.lt_of_le_of_lt hle (length_tail_lt hnext (by decide))

/-- The rest of a column is read from its tokens alone. -/
theorem readDotted_map_bare (lexemes : List Lexeme) :
    readDotted (lexemes.map Lexeme.bare) = (readDotted lexemes).erase id := by
  rw [readDotted_eq, readDotted_eq lexemes]
  simp only [nextToken_map_bare, tail_map_bare]
  split
  next hdot =>
    split
    next name hname =>
      rw [readDotted_map_bare lexemes.tail.tail]
      exact Reading.map_erase _ fun _ => rfl
    next => exact unexpected_map_bare _ _ _
  next => simp [Reading.erase, Except.map]
termination_by lexemes.length
decreasing_by
  have hdot := length_tail_lt ‹nextToken lexemes = .dot› (by decide)
  have hname := length_tail_lt ‹nextToken lexemes.tail = .name _› (by simp)
  omega

/-- A column is read from its tokens alone. -/
theorem readColumn_map_bare (lexemes : List Lexeme) :
    readColumn (lexemes.map Lexeme.bare) = (readColumn lexemes).erase id := by
  rw [readColumn_eq, readColumn_eq lexemes]
  simp only [nextToken_map_bare, tail_map_bare]
  split
  next =>
    rw [readDotted_map_bare]
    exact Reading.map_erase _ fun _ => rfl
  next => exact unexpected_map_bare _ _ _

/-- A list of columns is read from its tokens alone. -/
theorem readColumns_map_bare (lexemes : List Lexeme) :
    readColumns (lexemes.map Lexeme.bare) = (readColumns lexemes).erase id := by
  fun_induction readColumns lexemes with
  | case1 lexemes column gap text rest h ih =>
    rw [readColumns_eq, readColumn_map_bare, h]
    simp only [Reading.erase, Except.map, id, Reading.andThen, List.map_cons, nextToken,
      Lexeme.bare, if_pos, List.tail]
    rw [ih]
    exact Reading.map_erase _ fun _ => rfl
  | case2 lexemes column rest hcomma h =>
    rw [readColumns_eq, readColumn_map_bare, h]
    simp [Reading.erase, Except.map, Reading.andThen, nextToken_ne (by decide) hcomma]
  | case3 lexemes fault rest h =>
    rw [readColumns_eq, readColumn_map_bare, h]
    rfl

/-- What is compared with is read from its tokens alone. -/
theorem readComparand_map_bare (lexemes : List Lexeme) :
    readComparand (lexemes.map Lexeme.bare) = (readComparand lexemes).erase id := by
  rw [readComparand_eq, readComparand_eq lexemes]
  simp only [nextToken_map_bare, tail_map_bare]
  split
  next => rfl
  next => rfl
  next =>
    rw [readColumn_map_bare]
    exact Reading.map_erase _ fun _ => rfl
  next => exact unexpected_map_bare _ _ _

/-- What follows the column of a condition is read from its tokens alone. -/
theorem readComparison_map_bare (column : ColumnRef) (lexemes : List Lexeme) :
    readComparison column (lexemes.map Lexeme.bare) =
      (readComparison column lexemes).erase id := by
  rw [readComparison_eq, readComparison_eq column lexemes]
  simp only [nextToken_map_bare, tail_map_bare]
  split
  next =>
    rw [readComparand_map_bare]
    exact Reading.map_erase _ fun _ => rfl
  next => exact unexpected_map_bare _ _ _

@[simp] theorem holdsCondition_map_bare (lexemes : List Lexeme) :
    holdsCondition (lexemes.map Lexeme.bare) = holdsCondition lexemes := by
  simp [holdsCondition, List.takeWhile_map, List.any_map, Function.comp_def, Lexeme.bare]

theorem written_map_bare (lexemes : List Lexeme) :
    Lexeme.written (lexemes.map Lexeme.bare) = [] := by
  cases lexemes <;> simp [Lexeme.written, Lexeme.bare]

@[simp] theorem textBetween_map_bare (lexemes rest : List Lexeme) :
    textBetween (lexemes.map Lexeme.bare) rest = "" := by
  rw [textBetween, ← List.map_take, written_map_bare]

theorem textBetween_append (used rest : List Lexeme) :
    textBetween (used ++ rest) rest = String.ofList (Lexeme.written used) := by
  simp [textBetween]

/-- A condition is read from its tokens alone. -/
theorem readCondition_map_bare (lexemes : List Lexeme) :
    readCondition (lexemes.map Lexeme.bare) = (readCondition lexemes).erase id := by
  rw [readCondition, readColumn_map_bare]
  exact Reading.andThen_erase _ fun column rest _ => readComparison_map_bare column rest

/-- The body of brackets is read from its tokens alone, except for its text. -/
theorem readBody_map_bare (base : Query) (lexemes : List Lexeme) :
    readBody base.bare (lexemes.map Lexeme.bare) = (readBody base lexemes).erase Query.bare := by
  unfold readBody
  rw [holdsCondition_map_bare]
  split
  · rw [readCondition_map_bare]
    refine Reading.andThen_erase _ fun condition rest _ => ?_
    simp [Reading.erase, Except.map, Query.bare]
  · rw [readColumns_map_bare]
    refine Reading.andThen_erase _ fun columns rest _ => ?_
    simp [Reading.erase, Except.map, Query.bare]

/-- A token is expected whatever its text. -/
theorem expect_map_bare (token : Token) (lexemes : List Lexeme) :
    expect token (lexemes.map Lexeme.bare) = (expect token lexemes).erase id := by
  unfold expect
  rw [nextToken_map_bare]
  split
  · rw [tail_map_bare]
    rfl
  · exact unexpected_map_bare _ _ _

/-- Brackets are read from their tokens alone, except for their text. -/
theorem readBracket_map_bare (base : Query) (lexemes : List Lexeme) :
    readBracket base.bare (lexemes.map Lexeme.bare) =
      (readBracket base lexemes).erase Query.bare := by
  rw [readBracket, readBody_map_bare]
  refine Reading.andThen_erase _ fun query rest _ => ?_
  rw [expect_map_bare]
  exact Reading.map_erase _ fun _ => rfl

/-! ## Expressions -/

theorem Level.bare_term (level : Level) (query : Query) :
    level.bare.term query.bare = (level.term query).bare := by
  rcases level with ⟨terms, _ | left⟩ <;> rfl

theorem Level.bare_total (level : Level) (query : Query) :
    level.bare.total query.bare = (level.total query).bare := by
  rcases level with ⟨_ | ⟨left, operator⟩, _ | factor⟩ <;> rfl

/-- Behind a product sign a level goes on whatever the texts of brackets are. -/
theorem Level.bare_afterTimes (level : Level) (query : Query) :
    level.bare.afterTimes query.bare = (level.afterTimes query).bare := by
  rw [Level.afterTimes, Level.bare_term]
  rfl

/-- Behind a set operator a level goes on whatever the texts of brackets are. -/
theorem Level.bare_afterOperator (level : Level) (query : Query) (operator : SetOperator) :
    level.bare.afterOperator query.bare operator = (level.afterOperator query operator).bare := by
  rw [Level.afterOperator, Level.bare_total]
  rfl

mutual

/-- Queries are read from their tokens alone, except for the texts of brackets. The lemma for
operands and the one for operators call each other with fewer lexemes. -/
theorem readFromOperand_map_bare (level : Level) (outer : List Level) (lexemes : List Lexeme) :
    readFromOperand level.bare (outer.map Level.bare) (lexemes.map Lexeme.bare) =
      (readFromOperand level outer lexemes).erase Query.bare := by
  rw [readFromOperand_eq, readFromOperand_eq level]
  simp only [nextToken_map_bare, tail_map_bare]
  split
  next name hname => exact readFromOperator_map_bare level outer (.named name) lexemes.tail
  next hparen => exact readFromOperand_map_bare .start (level :: outer) lexemes.tail
  next => exact unexpected_map_bare _ _ _
termination_by lexemes.length
decreasing_by
  · exact length_tail_lt ‹nextToken lexemes = .name _› (by simp)
  · exact length_tail_lt ‹nextToken lexemes = .openParen› (by simp)

/-- The other half of `readFromOperand_map_bare`. -/
theorem readFromOperator_map_bare (level : Level) (outer : List Level) (query : Query)
    (lexemes : List Lexeme) :
    readFromOperator level.bare (outer.map Level.bare) query.bare (lexemes.map Lexeme.bare) =
      (readFromOperator level outer query lexemes).erase Query.bare := by
  rw [readFromOperator_eq, readFromOperator_eq level]
  simp only [nextToken_map_bare, tail_map_bare]
  split
  next =>
    rw [readBracket_map_bare]
    refine Reading.andThen_erase _ fun restricted rest hbracket => ?_
    exact readFromOperator_map_bare level outer restricted rest
  next =>
    rw [Level.bare_afterTimes]
    exact readFromOperand_map_bare _ outer lexemes.tail
  next =>
    rw [Level.bare_afterOperator]
    exact readFromOperand_map_bare _ outer lexemes.tail
  next =>
    cases outer with
    | nil =>
      rw [Level.bare_total]
      rfl
    | cons enclosing outer =>
      rw [Level.bare_total]
      simp only [List.map_cons]
      split
      next => exact readFromOperator_map_bare enclosing outer _ lexemes.tail
      next => exact unexpected_map_bare _ _ _
termination_by lexemes.length
decreasing_by
  · exact length_lt_of_readBracket ‹nextToken lexemes = .openBracket› hbracket
  · exact length_tail_lt ‹nextToken lexemes = .times› (by decide)
  · exact length_tail_lt ‹nextToken lexemes = .setOperator _› (by simp)
  · exact length_tail_lt ‹nextToken lexemes = .closeParen› (by decide)

end

/-! ## Statements -/

/-- The statement without source texts. -/
def Statement.bare (statement : Statement) : Statement :=
  ⟨statement.query.bare, statement.target⟩

/-- Behind a query stand an arrow, a name and the end of the line. -/
theorem readTarget_eq (query : Query) (lexemes : List Lexeme) :
    readTarget query lexemes =
      if nextToken lexemes = .arrow then
        match nextToken lexemes.tail with
        | .name target =>
          (expect .endOfLine lexemes.tail.tail).map fun _ => ⟨query, target⟩
        | _ => unexpected .targetName lexemes.tail
      else unexpected .arrow lexemes := by
  fun_cases readTarget query lexemes with
  | case1 => simp [nextToken]
  | case2 gap text rest hrest =>
    have hname (name : String) : nextToken rest ≠ .name name := nextToken_ne (by simp) (hrest name)
    rw [if_pos (show nextToken (⟨.arrow, gap, text⟩ :: rest) = .arrow from rfl), List.tail_cons]
    split
    next name hnext => exact absurd hnext (hname name)
    next => rfl
  | case3 _ _ harrow => rw [if_neg (nextToken_ne (by decide) harrow)]

/-- The target is read from its tokens alone. -/
theorem readTarget_map_bare (query : Query) (lexemes : List Lexeme) :
    readTarget query.bare (lexemes.map Lexeme.bare) =
      (readTarget query lexemes).erase Statement.bare := by
  rw [readTarget_eq, readTarget_eq query]
  simp only [nextToken_map_bare, tail_map_bare]
  split
  · split
    · rw [expect_map_bare]
      exact Reading.map_erase _ fun _ => rfl
    · exact unexpected_map_bare _ _ _
  · exact unexpected_map_bare _ _ _

theorem readQuery_map_bare (lexemes : List Lexeme) :
    readQuery (lexemes.map Lexeme.bare) = (readQuery lexemes).erase Query.bare :=
  readFromOperand_map_bare .start [] lexemes

/-- **Reading sees tokens only.**  Without what writes the tokens a line reads as the same
statement or fails at the same token. -/
theorem readStatement_map_bare (lexemes : List Lexeme) :
    readStatement (lexemes.map Lexeme.bare) =
      (readStatement lexemes).erase Statement.bare := by
  rw [readStatement, readQuery_map_bare]
  exact Reading.andThen_erase _ fun query rest _ => readTarget_map_bare query rest

/-! ## Successful readings -/

/-- A mapped reading succeeds with the image of a value, in the same place. -/
theorem Reading.map_eq_ok {f : α → β} {reading : Reading α} {value : β} {rest : List Lexeme} :
    reading.map f = (.ok value, rest) ↔ ∃ a, reading = (.ok a, rest) ∧ f a = value := by
  rcases reading with ⟨fault | a, left⟩
  · simp [Reading.map, Reading.andThen]
  · constructor
    · intro h
      obtain ⟨rfl, rfl⟩ : f a = value ∧ left = rest := by
        simpa [Reading.map, Reading.andThen] using h
      exact ⟨a, rfl, rfl⟩
    · rintro ⟨b, hb, rfl⟩
      obtain ⟨rfl, rfl⟩ : a = b ∧ left = rest := by simpa using hb
      rfl

/-- Two readings in a row succeed if the second one does where the first one ends. -/
theorem Reading.andThen_eq_ok {reading : Reading α} {next : α → List Lexeme → Reading β}
    {value : β} {rest : List Lexeme} :
    reading.andThen next = (.ok value, rest) ↔
      ∃ a left, reading = (.ok a, left) ∧ next a left = (.ok value, rest) := by
  rcases reading with ⟨fault | a, left⟩
  · simp [Reading.andThen]
  · constructor
    · exact fun h => ⟨a, left, rfl, h⟩
    · rintro ⟨b, right, hb, h⟩
      obtain ⟨rfl, rfl⟩ : a = b ∧ left = right := by simpa using hb
      exact h

theorem unexpected_ne_ok {expected : Expectation} {lexemes rest : List Lexeme} {value : α} :
    unexpected expected lexemes ≠ (.ok value, rest) := by
  simp [unexpected]

/-- A token other than the end of the line belongs to a lexeme. -/
theorem eq_cons_of_nextToken {lexemes : List Lexeme} {token : Token}
    (h : nextToken lexemes = token) (htoken : token ≠ .endOfLine) :
    ∃ first, first.token = token ∧ lexemes = first :: lexemes.tail := by
  cases lexemes with
  | nil => exact absurd h.symm htoken
  | cons first rest => exact ⟨first, h, rfl⟩

/-- A token other than the end of the line is the first of those that are left. -/
theorem map_token_eq {lexemes : List Lexeme} {token : Token} (h : nextToken lexemes = token)
    (htoken : token ≠ .endOfLine) :
    lexemes.map Lexeme.token = token :: lexemes.tail.map Lexeme.token := by
  obtain ⟨first, rfl, hlexemes⟩ := eq_cons_of_nextToken h htoken
  rw [hlexemes]
  rfl

/-- An expected token is used up. -/
theorem expect_eq_ok {token : Token} {lexemes rest : List Lexeme} {value : Unit} :
    expect token lexemes = (.ok value, rest) ↔ nextToken lexemes = token ∧ lexemes.tail = rest := by
  unfold expect
  split
  next h => simp [h]
  next h => simp [h, unexpected]

/-- Behind a query come an arrow, a name and the end of the line. -/
theorem readTarget_eq_ok {query : Query} {lexemes rest : List Lexeme} {statement : Statement} :
    readTarget query lexemes = (.ok statement, rest) ↔
      statement.query = query ∧ nextToken lexemes = .arrow ∧
        nextToken lexemes.tail = .name statement.target ∧
          nextToken lexemes.tail.tail = .endOfLine ∧ lexemes.tail.tail.tail = rest := by
  rw [readTarget_eq]
  constructor
  · intro h
    split at h
    next harrow =>
      split at h
      next target hname =>
        obtain ⟨_, hexpect, rfl⟩ := Reading.map_eq_ok.mp h
        exact ⟨rfl, harrow, hname, expect_eq_ok.mp hexpect⟩
      next => exact absurd h unexpected_ne_ok
    next => exact absurd h unexpected_ne_ok
  · rintro ⟨rfl, harrow, hname, hend⟩
    rw [if_pos harrow, hname]
    exact Reading.map_eq_ok.mpr ⟨(), expect_eq_ok.mpr hend, rfl⟩

end RelationScript
