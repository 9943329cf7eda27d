/-
# Reading queries

Queries are read from lexemes in one pass.  The three set operators share the lowest
precedence, products bind tighter, brackets tightest, and all associate to the left.  What
precedes the place of reading is kept as one `Level` for each open parenthesis.

* `readBracket` : the inside of brackets and the closing one;
* `readQuery` : the longest query at the start of a list of lexemes;
* `readWhole`, `readStatement` : a query up to the end of the line, and a whole line.

A reader returns the lexemes left together with its outcome.  After a fault these begin with
the lexeme that was not expected, so reading can go on from there.
-/
import RelationScript.Query.Basic
import RelationScript.Token.Scan

namespace RelationScript

/-! ## Expectations -/

/-- What could have come next. -/
inductive Expectation where
  | operand
  | columnName
  | columnNameAfterDot
  | comparator
  | comparand
  | token (token : Token)
  | arrow
  | targetName
  deriving DecidableEq

/-- The wording of an expectation. -/
def Expectation.text : Expectation → String
  | operand => "relation name or '('"
  | columnName => "attribute name"
  | columnNameAfterDot => "attribute name after '.'"
  | comparator => "comparator"
  | comparand => "attribute, number or string"
  | token t => t.display
  | arrow => "'->' followed by a result name"
  | targetName => "result name after '->'"

/-- A token that does not fit the grammar. -/
structure Unexpected where
  /-- What would have fitted. -/
  expected : Expectation
  /-- The token that came instead. -/
  found : Token
  deriving DecidableEq

/-- The wording of a fault. -/
def Unexpected.message (fault : Unexpected) : String :=
  "Expected " ++ fault.expected.text ++ ", got " ++ fault.found.display

/-- The outcome of a reader, and the lexemes left. -/
abbrev Reading (α : Type) := Except Unexpected α × List Lexeme

namespace Reading

/-- Go on with what a successful reading yields and leaves. -/
def andThen {α β : Type} (reading : Reading α) (next : α → List Lexeme → Reading β) :
    Reading β :=
  match reading with
  | (.ok value, rest) => next value rest
  | (.error fault, rest) => (.error fault, rest)

/-- Change what a successful reading yields. -/
def map {α β : Type} (f : α → β) (reading : Reading α) : Reading β :=
  reading.andThen fun value rest => (.ok (f value), rest)

end Reading

/-- The token that comes next; beyond the last lexeme the line stays at its end. -/
def nextToken : List Lexeme → Token
  | [] => .endOfLine
  | lexeme :: _ => lexeme.token

/-- The fault of meeting the next token where something else was expected. -/
def unexpected {α : Type} (expected : Expectation) (lexemes : List Lexeme) : Reading α :=
  (.error ⟨expected, nextToken lexemes⟩, lexemes)

/-- Step over a token that has to come next. -/
def expect (token : Token) (lexemes : List Lexeme) : Reading Unit :=
  if nextToken lexemes = token then (.ok (), lexemes.tail) else unexpected (.token token) lexemes

/-! ## Columns -/

/-- The names that follow a name, each after a dot. -/
def readDotted : List Lexeme → Reading (List String)
  | ⟨.dot, _, _⟩ :: ⟨.name name, _, _⟩ :: rest => (readDotted rest).map (name :: ·)
  | ⟨.dot, _, _⟩ :: rest => unexpected .columnNameAfterDot rest
  | rest => (.ok [], rest)

/-- A column reference: names joined by dots. -/
def readColumn : List Lexeme → Reading ColumnRef
  | ⟨.name first, _, _⟩ :: rest => (readDotted rest).map (.ofPath first)
  | rest => unexpected .columnName rest

/-! ## Lexemes left -/

/-- A change of the yield leaves the rest alone. -/
@[simp] theorem Reading.map_snd {α β : Type} (f : α → β) (reading : Reading α) :
    (reading.map f).2 = reading.2 := by
  rcases reading with ⟨_ | _, _⟩ <;> rfl

/-- What is left after two readings ends the first one's rest, if it does so for the second. -/
theorem Reading.andThen_suffix {α β : Type} {reading : Reading α}
    {next : α → List Lexeme → Reading β} {lexemes : List Lexeme} (h : reading.2 <:+ lexemes)
    (hnext : ∀ value rest, (next value rest).2 <:+ rest) :
    (reading.andThen next).2 <:+ lexemes := by
  rcases reading with ⟨_ | value, rest⟩
  · exact h
  · exact (hnext value rest).trans h

/-- Stepping over a token leaves an end of the lexemes. -/
theorem expect_suffix (token : Token) (lexemes : List Lexeme) :
    (expect token lexemes).2 <:+ lexemes := by
  unfold expect
  split
  · exact List.tail_suffix lexemes
  · exact List.suffix_rfl

/-- Reading dotted names leaves an end of the lexemes. -/
theorem readDotted_suffix (lexemes : List Lexeme) : (readDotted lexemes).2 <:+ lexemes := by
  fun_induction readDotted lexemes with
  | case1 _ _ _ _ _ _ ih =>
    rw [Reading.map_snd]
    exact (ih.trans (List.suffix_cons _ _)).trans (List.suffix_cons _ _)
  | case2 => exact List.suffix_cons _ _
  | case3 => exact List.suffix_rfl

/-- Reading a column leaves an end of the lexemes. -/
theorem readColumn_suffix (lexemes : List Lexeme) : (readColumn lexemes).2 <:+ lexemes := by
  unfold readColumn
  split
  · rw [Reading.map_snd]
    exact (readDotted_suffix _).trans (List.suffix_cons _ _)
  · exact List.suffix_rfl

/-! ## Inside brackets -/

/-- Columns separated by commas. -/
def readColumns (lexemes : List Lexeme) : Reading (List ColumnRef) :=
  match _h : readColumn lexemes with
  | (.ok column, ⟨.comma, _, _⟩ :: rest) => (readColumns rest).map (column :: ·)
  | (.ok column, rest) => (.ok [column], rest)
  | (.error fault, rest) => (.error fault, rest)
termination_by lexemes.length
decreasing_by
  have hle := (readColumn_suffix lexemes).length_le
  rw [_h, List.length_cons] at hle
  omega

/-- The right-hand side of a condition. -/
def readComparand : List Lexeme → Reading Operand
  | ⟨.number value, _, _⟩ :: rest => (.ok (.literal (.number value)), rest)
  | ⟨.text value, _, _⟩ :: rest => (.ok (.literal (.text value)), rest)
  | ⟨.name name, gap, text⟩ :: rest =>
    (readColumn (⟨.name name, gap, text⟩ :: rest)).map Operand.column
  | rest => unexpected .comparand rest

/-- A comparator and the right-hand side after it, given the left-hand side. -/
def readComparison (column : ColumnRef) : List Lexeme → Reading Condition
  | ⟨.comparator comparator, _, _⟩ :: rest =>
    (readComparand rest).map fun operand => ⟨column, comparator, operand⟩
  | rest => unexpected .comparator rest

/-- A column, a comparator and a column or literal. -/
def readCondition (lexemes : List Lexeme) : Reading Condition :=
  (readColumn lexemes).andThen readComparison

/-- Brackets hold a condition when a comparator comes before the first closing bracket. -/
def holdsCondition (lexemes : List Lexeme) : Bool :=
  (lexemes.takeWhile fun lexeme =>
    lexeme.token != .closeBracket && lexeme.token != .endOfLine).any (·.token.isComparator)

/-- The source text of the lexemes used up when `rest` is left of `lexemes`. -/
def textBetween (lexemes rest : List Lexeme) : String :=
  String.ofList (Lexeme.written (lexemes.take (lexemes.length - rest.length)))

/-- The inside of brackets behind a query. -/
def readBody (base : Query) (lexemes : List Lexeme) : Reading Query :=
  if holdsCondition lexemes then
    (readCondition lexemes).andThen fun condition rest =>
      (.ok (.select base condition (textBetween lexemes rest)), rest)
  else
    (readColumns lexemes).andThen fun columns rest =>
      (.ok (.project base columns (textBetween lexemes rest)), rest)

/-- The inside of brackets behind a query, and the closing bracket. -/
def readBracket (base : Query) (lexemes : List Lexeme) : Reading Query :=
  (readBody base lexemes).andThen fun query rest =>
    (expect .closeBracket rest).map fun _ => query

/-- Reading columns leaves an end of the lexemes. -/
theorem readColumns_suffix (lexemes : List Lexeme) : (readColumns lexemes).2 <:+ lexemes := by
  fun_induction readColumns lexemes with
  | case1 lexemes column gap text rest h ih =>
    rw [Reading.map_snd]
    have hcolumn := readColumn_suffix lexemes
    rw [h] at hcolumn
    exact (ih.trans (List.suffix_cons _ _)).trans hcolumn
  | case2 lexemes column rest _ h =>
    have hcolumn := readColumn_suffix lexemes
    rwa [h] at hcolumn
  | case3 lexemes fault rest h =>
    have hcolumn := readColumn_suffix lexemes
    rwa [h] at hcolumn

/-- Reading a right-hand side leaves an end of the lexemes. -/
theorem readComparand_suffix (lexemes : List Lexeme) : (readComparand lexemes).2 <:+ lexemes := by
  unfold readComparand
  split
  · exact List.suffix_cons _ _
  · exact List.suffix_cons _ _
  · rw [Reading.map_snd]
    exact readColumn_suffix _
  · exact List.suffix_rfl

/-- Reading a comparison leaves an end of the lexemes. -/
theorem readComparison_suffix (column : ColumnRef) (lexemes : List Lexeme) :
    (readComparison column lexemes).2 <:+ lexemes := by
  unfold readComparison
  split
  · rw [Reading.map_snd]
    exact (readComparand_suffix _).trans (List.suffix_cons _ _)
  · exact List.suffix_rfl

/-- Reading a condition leaves an end of the lexemes. -/
theorem readCondition_suffix (lexemes : List Lexeme) : (readCondition lexemes).2 <:+ lexemes :=
  Reading.andThen_suffix (readColumn_suffix _) readComparison_suffix

/-- Reading the inside of brackets leaves an end of the lexemes. -/
theorem readBody_suffix (base : Query) (lexemes : List Lexeme) :
    (readBody base lexemes).2 <:+ lexemes := by
  unfold readBody
  split
  · exact Reading.andThen_suffix (readCondition_suffix _) fun _ _ => List.suffix_rfl
  · exact Reading.andThen_suffix (readColumns_suffix _) fun _ _ => List.suffix_rfl

/-- Reading brackets leaves an end of the lexemes. -/
theorem readBracket_suffix (base : Query) (lexemes : List Lexeme) :
    (readBracket base lexemes).2 <:+ lexemes := by
  refine Reading.andThen_suffix (readBody_suffix base lexemes) fun query rest => ?_
  rw [Reading.map_snd]
  exact expect_suffix _ _

/-! ## Operators and parentheses -/

/-- What has been read of an expression before its present operand. -/
structure Level where
  /-- The terms before the last set operator, combined, with that operator. -/
  terms : Option (Query × SetOperator)
  /-- The factors of the present term before the last product sign. -/
  factors : Option Query

namespace Level

/-- Nothing has been read. -/
def start : Level := ⟨none, none⟩

/-- The present term, when `query` is its last factor. -/
def term (level : Level) (query : Query) : Query :=
  match level.factors with
  | some left => .product left query
  | none => query

/-- The whole expression, when `query` is its last factor. -/
def total (level : Level) (query : Query) : Query :=
  match level.terms with
  | some (left, operator) => .combine operator left (level.term query)
  | none => level.term query

/-- The level behind a product sign. -/
def afterTimes (level : Level) (query : Query) : Level :=
  ⟨level.terms, some (level.term query)⟩

/-- The level behind a set operator. -/
def afterOperator (level : Level) (query : Query) (operator : SetOperator) : Level :=
  ⟨some (level.total query, operator), none⟩

end Level

mutual

/-- Read on from a place where an operand has to come, inside the parentheses `outer`. -/
def readFromOperand (level : Level) (outer : List Level) : List Lexeme → Reading Query
  | ⟨.name name, _, _⟩ :: rest => readFromOperator level outer (.named name) rest
  | ⟨.openParen, _, _⟩ :: rest => readFromOperand .start (level :: outer) rest
  | rest => unexpected .operand rest
termination_by lexemes => lexemes.length

/-- Read on from a place behind an operand, inside the parentheses `outer`.  Where nothing
continues the expression, a parenthesis has to close or, outside of all, the query ends. -/
def readFromOperator (level : Level) (outer : List Level) (query : Query) :
    List Lexeme → Reading Query
  | ⟨.openBracket, _, _⟩ :: rest =>
    match _h : readBracket query rest with
    | (.ok restricted, more) => readFromOperator level outer restricted more
    | (.error fault, more) => (.error fault, more)
  | ⟨.times, _, _⟩ :: rest => readFromOperand (level.afterTimes query) outer rest
  | ⟨.setOperator operator, _, _⟩ :: rest =>
    readFromOperand (level.afterOperator query operator) outer rest
  | rest =>
    match outer, rest with
    | [], rest => (.ok (level.total query), rest)
    | enclosing :: outer, ⟨.closeParen, _, _⟩ :: rest =>
      readFromOperator enclosing outer (level.total query) rest
    | _ :: _, rest => unexpected (.token .closeParen) rest
termination_by lexemes => lexemes.length
decreasing_by
  · have hle := (readBracket_suffix query rest).length_le
    rw [_h] at hle
    exact Nat.lt_succ_of_le hle
  · exact Nat.lt_succ_self _
  · exact Nat.lt_succ_self _
  · exact Nat.lt_succ_self _

end

/-! ## Queries and statements -/

/-- The longest query at the start of the lexemes. -/
def readQuery (lexemes : List Lexeme) : Reading Query :=
  readFromOperand .start [] lexemes

/-- A query that the line ends with. -/
def readWhole (lexemes : List Lexeme) : Reading Query :=
  (readQuery lexemes).andThen fun query rest => (expect .endOfLine rest).map fun _ => query

/-- An arrow, a name and the end of the line, behind a query. -/
def readTarget (query : Query) : List Lexeme → Reading Statement
  | ⟨.arrow, _, _⟩ :: ⟨.name target, _, _⟩ :: rest =>
    (expect .endOfLine rest).map fun _ => ⟨query, target⟩
  | ⟨.arrow, _, _⟩ :: rest => unexpected .targetName rest
  | rest => unexpected .arrow rest

/-- A query, an arrow, a name and the end of the line. -/
def readStatement (lexemes : List Lexeme) : Reading Statement :=
  (readQuery lexemes).andThen readTarget

/-! ## Lines -/

/-- Why a line is not a statement. -/
inductive LineFault where
  /-- It cannot be cut into tokens. -/
  | scan (fault : ScanFault)
  /-- Its tokens do not follow the grammar. -/
  | grammar (fault : Unexpected)
  deriving DecidableEq

/-- The wording of a fault. -/
def LineFault.message : LineFault → String
  | scan fault => fault.message
  | grammar fault => fault.message

/-- The statement that a line writes. -/
def Statement.ofLine (line : String) : Except LineFault Statement :=
  match lexemesOf line with
  | .error fault => .error (.scan fault)
  | .ok lexemes =>
    match (readStatement lexemes).1 with
    | .ok statement => .ok statement
    | .error fault => .error (.grammar fault)

end RelationScript
