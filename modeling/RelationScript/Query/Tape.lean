/-
# Reading in place

The tokens of a line on a tape with one place at which they are read.  A token that is taken leaves
the end of the line in its stead; a token that does not fit stays.  Reading goes down from
expressions to the names in them, as long as it is given steps.

* `Tape` : the tokens with their spans, and the place;
* `OnTape` : actions on a tape, which may fail or run out of steps;
* `OnTape.expression`, `OnTape.whole`, `OnTape.statement` : what can be read;
* `Tape.session` : one tape read time after time.
-/
import RelationScript.Query.Reading
import RelationScript.Token.Span

namespace RelationScript

/-- The tokens of a line and the place up to which they have been read. -/
structure Tape where
  /-- The characters of the line. -/
  line : List Char
  /-- The tokens; those that have been taken are overwritten. -/
  tokens : List Token
  /-- Where the tokens stand in the line. -/
  spans : List Span
  /-- How many tokens come before the place. -/
  head : Nat
  deriving DecidableEq

namespace Tape

/-- The tape of what comes after a place in a line, before any reading. -/
def load (line : String) (cursor : Cursor) : Except ScanFault Tape :=
  cursor.lexemes.map fun lexemes =>
    let spanned := Lexeme.spanned cursor.offset lexemes
    ⟨line.toList, spanned.map Prod.fst, spanned.map Prod.snd, 0⟩

/-- The token at the place; beyond the last one the line stays at its end. -/
def current (tape : Tape) : Token :=
  tape.tokens[tape.head]?.getD .endOfLine

/-- The tape with the place behind the token, unless it is behind all of them. -/
def advance (tape : Tape) : Tape :=
  if tape.head < tape.tokens.length then { tape with head := tape.head + 1 } else tape

/-- The tape with the token at the place taken away. -/
def erase (tape : Tape) : Tape :=
  { tape with tokens := tape.tokens.set tape.head .endOfLine }

/-- The source text from the token at `start` to the last one before the place.  There is none if it
cannot be cut out of the line. -/
def textSince? (tape : Tape) (start : Nat) : Option String :=
  if start < tape.head then
    match tape.spans[start]? with
    | none => some ""
    | some first =>
      tape.spans[tape.head - 1]?.bind fun last =>
        if first.start ≤ last.stop ∧ last.stop ≤ tape.line.length then
          some (String.ofList (Span.text ⟨first.start, last.stop⟩ tape.line))
        else none
  else some ""

/-- Whether a comparator comes before the end of the present brackets.  There is no answer behind the
end of the tape. -/
def holdsCondition? (tape : Tape) : Option Bool :=
  if tape.head ≤ tape.tokens.length then
    some (((tape.tokens.drop tape.head).takeWhile fun token =>
      token != .closeBracket && token != .endOfLine).any Token.isComparator)
  else none

end Tape

/-- Why an action has no yield. -/
inductive Halt where
  /-- A token did not fit. -/
  | fault (fault : Unexpected)
  /-- Something was out of range, or a token was not what it had been a moment ago. -/
  | broken
  deriving DecidableEq

/-- Actions on a tape.  An action that is not given the steps that it takes has no outcome. -/
abbrev OnTape (α : Type) := ExceptT Halt (StateT Tape Option) α

namespace OnTape

/-- The outcome of an action and the tape after it. -/
def run {α : Type} (action : OnTape α) (tape : Tape) : Option (Except Halt α × Tape) :=
  StateT.run (ExceptT.run action) tape

/-! ## Single tokens -/

/-- There are no steps left. -/
def exhausted {α : Type} : OnTape α :=
  fun _ => none

/-- What must not happen. -/
def broken {α : Type} : OnTape α :=
  throw .broken

/-- A look at the tape; it must have an answer. -/
def look {α : Type} (answer? : Tape → Option α) : OnTape α := do
  match answer? (← get) with
  | some answer => return answer
  | none => broken

/-- The token at the place. -/
def current : OnTape Token :=
  return (← get).current

/-- Step over the token at the place. -/
def advance : OnTape Unit :=
  modify Tape.advance

/-- Take the token at the place away and step over it. -/
def take : OnTape Token := do
  let token ← current
  modify Tape.erase
  advance
  return token

/-- The fault of meeting the token at the place where something else was expected. -/
def unexpected {α : Type} (expected : Expectation) : OnTape α := do
  throw (.fault ⟨expected, ← current⟩)

/-- Step over a token that has to come next. -/
def expect (token : Token) : OnTape Unit := do
  if (← current) = token then advance else unexpected (.token token)

/-- Take a name. -/
def name (expected : Expectation) : OnTape String := do
  match ← current with
  | .name _ =>
    match ← take with
    | .name name => return name
    | _ => broken
  | _ => unexpected expected

/-! ## Inside brackets -/

/-- More names, each after a dot. -/
def dotted : Nat → List String → OnTape (List String)
  | 0, _ => exhausted
  | steps + 1, names => do
    if (← current) = .dot then
      advance
      let next ← name .columnNameAfterDot
      dotted steps (names ++ [next])
    else
      return names

/-- A column reference. -/
def column (steps : Nat) : OnTape ColumnRef := do
  let first ← name .columnName
  let more ← dotted steps []
  return .ofPath first more

/-- More columns, each after a comma. -/
def listed : Nat → List ColumnRef → OnTape (List ColumnRef)
  | 0, _ => exhausted
  | steps + 1, columns => do
    if (← current) = .comma then
      advance
      let next ← column steps
      listed steps (columns ++ [next])
    else
      return columns

/-- Columns separated by commas. -/
def columns (steps : Nat) : OnTape (List ColumnRef) := do
  let first ← column steps
  listed steps [first]

/-- The right-hand side of a condition. -/
def comparand (steps : Nat) : OnTape Operand := do
  match ← current with
  | .name _ =>
    let right ← column steps
    return .column right
  | .number _ | .text _ =>
    match ← take with
    | .number value => return .literal (.number value)
    | .text value => return .literal (.text value)
    | _ => broken
  | _ => unexpected .comparand

/-- A column, a comparator and a column or literal. -/
def condition (steps : Nat) : OnTape Condition := do
  let left ← column steps
  match ← current with
  | .comparator comparator =>
    advance
    let right ← comparand steps
    return ⟨left, comparator, right⟩
  | _ => unexpected .comparator

/-- The inside of brackets behind a query. -/
def body (steps : Nat) (base : Query) : OnTape Query := do
  let start := (← get).head
  if ← look Tape.holdsCondition? then
    let condition ← condition steps
    let text ← look fun tape => tape.textSince? start
    return .select base condition text
  else
    let columns ← columns steps
    let text ← look fun tape => tape.textSince? start
    return .project base columns text

/-- Brackets behind a query, time after time. -/
def restrictions : Nat → Query → OnTape Query
  | 0, _ => exhausted
  | steps + 1, base => do
    if (← current) = .openBracket then
      advance
      let restricted ← body steps base
      expect .closeBracket
      restrictions steps restricted
    else
      return base

/-! ## Operators and parentheses -/

mutual

/-- A name or an expression in parentheses. -/
def primary : Nat → OnTape Query
  | 0 => exhausted
  | steps + 1 => do
    match ← current with
    | .name _ =>
      let name ← name .operand
      return .named name
    | .openParen =>
      advance
      let query ← expression steps
      expect .closeParen
      return query
    | _ => unexpected .operand

/-- An operand with its brackets. -/
def factor : Nat → OnTape Query
  | 0 => exhausted
  | steps + 1 => do
    let base ← primary steps
    restrictions steps base

/-- More factors, each after a product sign. -/
def products : Nat → Query → OnTape Query
  | 0, _ => exhausted
  | steps + 1, left => do
    if (← current) = .times then
      advance
      let right ← factor steps
      products steps (.product left right)
    else
      return left

/-- Factors with product signs between them. -/
def term : Nat → OnTape Query
  | 0 => exhausted
  | steps + 1 => do
    let first ← factor steps
    products steps first

/-- More terms, each after a set operator. -/
def combinations : Nat → Query → OnTape Query
  | 0, _ => exhausted
  | steps + 1, left => do
    match ← current with
    | .setOperator operator =>
      advance
      let right ← term steps
      combinations steps (.combine operator left right)
    | _ => return left

/-- Terms with set operators between them. -/
def expression : Nat → OnTape Query
  | 0 => exhausted
  | steps + 1 => do
    let first ← term steps
    combinations steps first

end

/-- An expression that the line ends with. -/
def whole (steps : Nat) : OnTape Query := do
  let query ← expression steps
  expect .endOfLine
  return query

/-- An expression, an arrow, a name and the end of the line. -/
def statement (steps : Nat) : OnTape Statement := do
  let query ← expression steps
  if (← current) = .arrow then
    advance
    let target ← name .targetName
    expect .endOfLine
    return ⟨query, target⟩
  else
    unexpected .arrow

end OnTape

/-! ## Calls -/

/-- What can be asked of a tape. -/
inductive Call where
  | expression
  | whole
  | statement
  deriving DecidableEq

namespace Call

/-- The call on a tape. -/
def onTape (steps : Nat) : Call → OnTape (Query ⊕ Statement)
  | expression => do
    let query ← OnTape.expression steps
    return .inl query
  | whole => do
    let query ← OnTape.whole steps
    return .inl query
  | statement => do
    let statement ← OnTape.statement steps
    return .inr statement

/-- The reader of lexemes that the call stands for. -/
def read : Call → List Lexeme → Reading (Query ⊕ Statement)
  | expression, lexemes => (readQuery lexemes).map .inl
  | whole, lexemes => (readWhole lexemes).map .inl
  | statement, lexemes => (readStatement lexemes).map .inr

end Call

/-- The outcomes of calls on one tape, one after the other, each with the tape after it.  Every call
is given so many steps. -/
def Tape.session (steps : Nat) (tape : Tape) :
    List Call → Option (List (Except Halt (Query ⊕ Statement) × Tape))
  | [] => some []
  | call :: calls =>
    ((call.onTape steps).run tape).bind fun done =>
      (done.2.session steps calls).map (done :: ·)

end RelationScript
