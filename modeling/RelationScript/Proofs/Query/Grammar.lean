/-
# The grammar of lines

The sentences of the language as lists of tokens, each with the tree that it stands for.  The
rules are those of the language's description, repetitions included:

* `expression := term (('&' | '|' | '\') term)*`;
* `term := factor ('*' factor)*`;
* `factor := primary ('[' body ']')*`;
* `primary := NAME | '(' expression ')'`;
* `body := column comparator (column | NUMBER | TEXT) | column (',' column)*`;
* `column := NAME ('.' NAME)*`.

A repetition is folded from the left, so all operators associate to the left, and parentheses
leave no node.  The trees are queries whose brackets carry no source text.

* `Grammar.Derives` : the tokens of a phrase, with its tree;
* `Grammar.Sentence` : an expression, an arrow and a name;
* `Query.bare` : a query without the source texts of its brackets.
-/
import RelationScript.Query.Reading

namespace RelationScript

/-- The query without the source texts of its brackets. -/
def Query.bare : Query → Query
  | named name => named name
  | combine operator left right => combine operator left.bare right.bare
  | product left right => product left.bare right.bare
  | project base columns _ => project base.bare columns ""
  | select base condition _ => select base.bare condition ""

namespace Grammar

/-! ## Inside brackets -/

/-- The tokens of names that each come after a dot. -/
def dotted (names : List String) : List Token :=
  names.flatMap fun name => [.dot, .name name]

/-- The tokens of a column reference.  All names but the last make up the qualifier. -/
inductive IsColumn : List Token → ColumnRef → Prop
  | plain (name : String) : IsColumn [.name name] ⟨none, name⟩
  | qualified (first : String) (middle : List String) (last : String) :
      IsColumn (.name first :: dotted (middle ++ [last]))
        ⟨some (".".intercalate (first :: middle)), last⟩

/-- The tokens of a right-hand side: a column, a number or a text. -/
inductive IsOperand : List Token → Operand → Prop
  | column {tokens : List Token} {ref : ColumnRef} (h : IsColumn tokens ref) :
      IsOperand tokens (.column ref)
  | number (value : Decimal) : IsOperand [.number value] (.literal (.number value))
  | text (value : String) : IsOperand [.text value] (.literal (.text value))

/-- What brackets hold. -/
inductive Body where
  /-- The condition of a selection. -/
  | condition (condition : Condition)
  /-- The columns of a projection. -/
  | columns (columns : List ColumnRef)

/-- The query that brackets make of the query before them. -/
def Body.restrict (base : Query) : Body → Query
  | condition c => .select base c ""
  | columns cs => .project base cs ""

/-- The tokens between a pair of brackets: a comparison, or columns separated by commas. -/
inductive IsBody : List Token → Body → Prop
  | condition {left right : List Token} {column : ColumnRef} {operand : Operand}
      (hleft : IsColumn left column) (comparator : Comparator)
      (hright : IsOperand right operand) :
      IsBody (left ++ .comparator comparator :: right) (.condition ⟨column, comparator, operand⟩)
  | columns {tokens : List Token} {column : ColumnRef} (hfirst : IsColumn tokens column)
      (more : List (List Token × ColumnRef)) (hmore : ∀ item ∈ more, IsColumn item.1 item.2) :
      IsBody (tokens ++ more.flatMap fun item => .comma :: item.1)
        (.columns (column :: more.map Prod.snd))

/-! ## Expressions -/

/-- The phrases that expressions are made of. -/
inductive Phrase where
  | primary
  | factor
  | term
  | expression

/-- The tokens of a phrase, with its tree. -/
inductive Derives : Phrase → List Token → Query → Prop
  | name (name : String) : Derives .primary [.name name] (.named name)
  | parens {tokens : List Token} {query : Query} (h : Derives .expression tokens query) :
      Derives .primary (.openParen :: tokens ++ [.closeParen]) query
  | factor {tokens : List Token} {query : Query} (hfirst : Derives .primary tokens query)
      (bodies : List (List Token × Body)) (hbodies : ∀ item ∈ bodies, IsBody item.1 item.2) :
      Derives .factor
        (tokens ++ bodies.flatMap fun item => .openBracket :: item.1 ++ [.closeBracket])
        (bodies.foldl (fun base item => item.2.restrict base) query)
  | term {tokens : List Token} {query : Query} (hfirst : Derives .factor tokens query)
      (more : List (List Token × Query)) (hmore : ∀ item ∈ more, Derives .factor item.1 item.2) :
      Derives .term (tokens ++ more.flatMap fun item => .times :: item.1)
        (more.foldl (fun left item => .product left item.2) query)
  | expression {tokens : List Token} {query : Query} (hfirst : Derives .term tokens query)
      (more : List (SetOperator × List Token × Query))
      (hmore : ∀ item ∈ more, Derives .term item.2.1 item.2.2) :
      Derives .expression (tokens ++ more.flatMap fun item => .setOperator item.1 :: item.2.1)
        (more.foldl (fun left item => .combine item.1 left item.2.2) query)

/-- The tokens of a line: an expression, an arrow and the name to bind. -/
def Sentence (tokens : List Token) (query : Query) (target : String) : Prop :=
  ∃ words, tokens = words ++ [.arrow, .name target] ∧ Derives .expression words query

end Grammar

end RelationScript
