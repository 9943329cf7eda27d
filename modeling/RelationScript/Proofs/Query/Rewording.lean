/-
# Lines that are the same but for some texts

A quoted text is one token of its line, whatever it holds.  Lexemes, queries and what else is read
from a line are compared here when they are the same but for the contents of some texts, which
read one thing in one line and another in the other.

* `Query.Context` : a query with one of its texts left open;
* `Rewords` : lists whose entries are the same but for so many texts in all;
* `Lexeme.Reworded`, `Query.Reworded`, … : entries and queries that are;
* `Query.Reworded.exists_context` : one text more or less is one context.
-/
import Mathlib
import RelationScript.Query.Reading

namespace RelationScript

/-! ## A query with one text left open -/

/-- A query with one text left open: the right-hand side of a condition somewhere in it. -/
inductive Query.Context where
  /-- The condition of brackets behind a query.  The source text of the brackets goes around
  the quotes. -/
  | literal (base : Query) (column : ColumnRef) (comparator : Comparator)
      (before after : String)
  | combineLeft (operator : SetOperator) (left : Context) (right : Query)
  | combineRight (operator : SetOperator) (left : Query) (right : Context)
  | productLeft (left : Context) (right : Query)
  | productRight (left : Query) (right : Context)
  | project (base : Context) (columns : List ColumnRef) (text : String)
  | select (base : Context) (condition : Condition) (text : String)

/-- The query with a text in the open place. -/
def Query.Context.fill (content : String) : Context → Query
  | literal base column comparator before after =>
    .select base ⟨column, comparator, .literal (.text content)⟩
      (before ++ "'" ++ content ++ "'" ++ after)
  | combineLeft operator left right => .combine operator (left.fill content) right
  | combineRight operator left right => .combine operator left (right.fill content)
  | productLeft left right => .product (left.fill content) right
  | productRight left right => .product left (right.fill content)
  | project base columns text => .project (base.fill content) columns text
  | select base condition text => .select (base.fill content) condition text

/-! ## Lists that are the same but for some texts -/

/-- A quoted text with the blanks before it. -/
def Lexeme.quoted (gap : List Char) (content : String) : Lexeme :=
  ⟨.text content, gap, '\x27' :: content.toList ++ ['\x27']⟩

section Rewording

/-- Lists whose entries are related, with the number of changes in all of them. -/
inductive Rewords {α : Type} (r : ℕ → α → α → Prop) : ℕ → List α → List α → Prop
  | nil : Rewords r 0 [] []
  | cons {i j : ℕ} {a a' : α} {l l' : List α} (hhead : r i a a') (htail : Rewords r j l l') :
      Rewords r (i + j) (a :: l) (a' :: l')

/-- Changes in two parts add up. -/
theorem Rewords.append {α : Type} {r : ℕ → α → α → Prop} {i j : ℕ} {l l' more more' : List α}
    (h : Rewords r i l l') (hmore : Rewords r j more more') :
    Rewords r (i + j) (l ++ more) (l' ++ more') := by
  induction h with
  | nil => simpa using hmore
  | cons hhead htail ih =>
    rw [Nat.add_assoc]
    exact .cons hhead ih

variable (s s' : String)

/-- The same lexeme, or a quoted text that reads `s` in one line and `s'` in the other. -/
inductive Lexeme.Reworded : ℕ → Lexeme → Lexeme → Prop
  | same (lexeme : Lexeme) : Reworded 0 lexeme lexeme
  | quoted (gap : List Char) : Reworded 1 (.quoted gap s) (.quoted gap s')

/-- The same right-hand side, or a text that reads `s` in one line and `s'` in the other. -/
inductive Operand.Reworded : ℕ → Operand → Operand → Prop
  | same (operand : Operand) : Reworded 0 operand operand
  | text : Reworded 1 (.literal (.text s)) (.literal (.text s'))

/-- The same condition but for its right-hand side. -/
structure Condition.Reworded (n : ℕ) (condition condition' : Condition) : Prop where
  column : condition.column = condition'.column
  comparator : condition.comparator = condition'.comparator
  operand : Operand.Reworded s s' n condition.operand condition'.operand

/-- The same query but for so many texts, and the source texts of the brackets they stand in. -/
inductive Query.Reworded : ℕ → Query → Query → Prop
  | named (name : String) : Reworded 0 (.named name) (.named name)
  | combine {i j : ℕ} {left left' right right' : Query} (operator : SetOperator)
      (hleft : Reworded i left left') (hright : Reworded j right right') :
      Reworded (i + j) (.combine operator left right) (.combine operator left' right')
  | product {i j : ℕ} {left left' right right' : Query} (hleft : Reworded i left left')
      (hright : Reworded j right right') :
      Reworded (i + j) (.product left right) (.product left' right')
  | project {i : ℕ} {base base' : Query} (hbase : Reworded i base base')
      (columns : List ColumnRef) (text : String) :
      Reworded i (.project base columns text) (.project base' columns text)
  | select {i : ℕ} {base base' : Query} (hbase : Reworded i base base') (condition : Condition)
      (text : String) : Reworded i (.select base condition text) (.select base' condition text)
  | literal {i : ℕ} {base base' : Query} (hbase : Reworded i base base') (column : ColumnRef)
      (comparator : Comparator) (before after : String) :
      Reworded (i + 1)
        (.select base ⟨column, comparator, .literal (.text s)⟩
          (before ++ "'" ++ s ++ "'" ++ after))
        (.select base' ⟨column, comparator, .literal (.text s')⟩
          (before ++ "'" ++ s' ++ "'" ++ after))

end Rewording

variable {s s' : String}

/-! ## How many texts differ -/

/-- Lexemes with no change are the same. -/
theorem Rewords.eq_of_zero {used used' : List Lexeme}
    (h : Rewords (Lexeme.Reworded s s') 0 used used') : used = used' := by
  generalize hn : 0 = n at h
  induction h with
  | nil => rfl
  | @cons i j _ _ _ _ hhead htail ih =>
    cases hhead with
    | same lexeme => rw [ih (by omega)]
    | quoted gap => omega

/-- Of the same queries but for no text, both are one query. -/
theorem Query.Reworded.eq_of_zero {query query' : Query}
    (h : Query.Reworded s s' 0 query query') : query = query' := by
  generalize hn : 0 = n at h
  induction h with
  | named name => rfl
  | combine operator hleft hright ihleft ihright => rw [ihleft (by omega), ihright (by omega)]
  | product hleft hright ihleft ihright => rw [ihleft (by omega), ihright (by omega)]
  | project hbase columns text ih => rw [ih hn]
  | select hbase condition text ih => rw [ih hn]
  | literal => omega

/-- Queries that are the same but for one text fill one context. -/
theorem Query.Reworded.exists_context {query query' : Query}
    (h : Query.Reworded s s' 1 query query') :
    ∃ context : Query.Context, query = context.fill s ∧ query' = context.fill s' := by
  generalize hn : 1 = n at h
  induction h with
  | named name => omega
  | @combine i j left left' right right' operator hleft hright ihleft ihright =>
    -- The one text stands on one of the sides, and the other sides are equal.
    rcases Nat.add_eq_one_iff.mp hn.symm with ⟨rfl, rfl⟩ | ⟨rfl, rfl⟩
    · obtain ⟨context, rfl, rfl⟩ := ihright rfl
      obtain rfl := hleft.eq_of_zero
      exact ⟨.combineRight operator left context, rfl, rfl⟩
    · obtain ⟨context, rfl, rfl⟩ := ihleft rfl
      obtain rfl := hright.eq_of_zero
      exact ⟨.combineLeft operator context right, rfl, rfl⟩
  | @product i j left left' right right' hleft hright ihleft ihright =>
    rcases Nat.add_eq_one_iff.mp hn.symm with ⟨rfl, rfl⟩ | ⟨rfl, rfl⟩
    · obtain ⟨context, rfl, rfl⟩ := ihright rfl
      obtain rfl := hleft.eq_of_zero
      exact ⟨.productRight left context, rfl, rfl⟩
    · obtain ⟨context, rfl, rfl⟩ := ihleft rfl
      obtain rfl := hright.eq_of_zero
      exact ⟨.productLeft context right, rfl, rfl⟩
  | project hbase columns text ih =>
    obtain ⟨context, rfl, rfl⟩ := ih hn
    exact ⟨.project context columns text, rfl, rfl⟩
  | select hbase condition text ih =>
    obtain ⟨context, rfl, rfl⟩ := ih hn
    exact ⟨.select context condition text, rfl, rfl⟩
  | @literal i base base' hbase column comparator before after =>
    obtain rfl : i = 0 := by omega
    obtain rfl := hbase.eq_of_zero
    exact ⟨.literal base column comparator before after, rfl, rfl⟩

/-! ## Lexemes -/

/-- The next tokens are the same, or both of them are texts. -/
theorem Rewords.nextToken_cases {n : ℕ} {lexemes lexemes' : List Lexeme}
    (h : Rewords (Lexeme.Reworded s s') n lexemes lexemes') :
    nextToken lexemes' = nextToken lexemes ∨
      (nextToken lexemes = .text s ∧ nextToken lexemes' = .text s') := by
  cases h with
  | nil => exact Or.inl rfl
  | cons hhead htail =>
    cases hhead with
    | same lexeme => exact Or.inl rfl
    | quoted gap => exact Or.inr ⟨rfl, rfl⟩

/-- A token that is no text is the next one in both lists or in neither. -/
theorem Rewords.nextToken_eq_iff {n : ℕ} {lexemes lexemes' : List Lexeme}
    (h : Rewords (Lexeme.Reworded s s') n lexemes lexemes') (token : Token)
    (htoken : ∀ value, token ≠ .text value) :
    nextToken lexemes' = token ↔ nextToken lexemes = token := by
  rcases h.nextToken_cases with heq | ⟨htext, htext'⟩
  · rw [heq]
  · rw [htext, htext']
    exact ⟨fun h => absurd h.symm (htoken s'), fun h => absurd h.symm (htoken s)⟩

/-- Looking ahead for a comparator does not look into a text. -/
theorem Rewords.holdsCondition_eq {n : ℕ} {lexemes lexemes' : List Lexeme}
    (h : Rewords (Lexeme.Reworded s s') n lexemes lexemes') :
    holdsCondition lexemes' = holdsCondition lexemes := by
  induction h with
  | nil => rfl
  | cons hhead htail ih =>
    unfold holdsCondition at ih ⊢
    cases hhead with
    | same lexeme =>
      simp only [List.takeWhile_cons]
      split
      · rw [List.any_cons, List.any_cons, ih]
      · rfl
    | quoted gap => simpa [Lexeme.quoted, Token.isComparator] using ih

/-- Putting another text between two quotes is one change. -/
theorem rewords_quoted (front : List Lexeme) (gap : List Char) (back : List Lexeme) :
    Rewords (Lexeme.Reworded s s') 1 (front ++ Lexeme.quoted gap s :: back)
      (front ++ Lexeme.quoted gap s' :: back) := by
  have hsame : ∀ lexemes, Rewords (Lexeme.Reworded s s') 0 lexemes lexemes := by
    intro lexemes
    induction lexemes with
    | nil => exact .nil
    | cons lexeme lexemes ih => exact .cons (.same lexeme) ih
  have hback := Rewords.cons (.quoted gap) (hsame back)
  exact (hsame front).append hback

/-- If one text is changed, it stands at some place and everything else is the same. -/
theorem Rewords.exists_split {used used' : List Lexeme}
    (h : Rewords (Lexeme.Reworded s s') 1 used used') :
    ∃ front gap back, used = front ++ Lexeme.quoted gap s :: back ∧
      used' = front ++ Lexeme.quoted gap s' :: back := by
  generalize hn : 1 = n at h
  induction h with
  | nil => omega
  | @cons i j lexeme _ more more' hhead htail ih =>
    cases hhead with
    | same =>
      obtain ⟨front, gap, back, rfl, rfl⟩ := ih (by omega)
      exact ⟨lexeme :: front, gap, back, rfl, rfl⟩
    | quoted gap =>
      obtain rfl : j = 0 := by omega
      obtain rfl := htail.eq_of_zero
      exact ⟨[], gap, more, rfl, rfl⟩

/-- A line with a quoted text in it is a context around this text. -/
theorem Lexeme.exists_written_quoted (front : List Lexeme) (gap : List Char)
    (back : List Lexeme) :
    ∃ before after : String, ∀ content,
      String.ofList (Lexeme.written (front ++ Lexeme.quoted gap content :: back)) =
        before ++ "'" ++ content ++ "'" ++ after := by
  -- The blanks before the first lexeme are not part of the source text.
  obtain ⟨before, hbefore⟩ : ∃ before, ∀ lexeme : Lexeme, lexeme.gap = gap →
      Lexeme.written (front ++ lexeme :: back) =
        before ++ (lexeme.text ++ back.flatMap fun lexeme => lexeme.gap ++ lexeme.text) := by
    cases front with
    | nil => exact ⟨[], fun lexeme _ => rfl⟩
    | cons first front =>
      refine ⟨written (first :: front) ++ gap, fun lexeme hgap => ?_⟩
      simp [written, hgap]
  refine ⟨String.ofList before,
    String.ofList (back.flatMap fun lexeme => lexeme.gap ++ lexeme.text), fun content => ?_⟩
  rw [hbefore (.quoted gap content) rfl]
  apply String.toList_injective
  simp [quoted]

/-! ## Levels and statements -/

/-- The same terms before the present one but for so many texts. -/
inductive RewordedTerms (s s' : String) :
    ℕ → Option (Query × SetOperator) → Option (Query × SetOperator) → Prop
  | none : RewordedTerms s s' 0 none none
  | some {i : ℕ} {query query' : Query} (h : Query.Reworded s s' i query query')
      (operator : SetOperator) :
      RewordedTerms s s' i (some (query, operator)) (some (query', operator))

/-- The same factors before the present one but for so many texts. -/
inductive RewordedFactors (s s' : String) : ℕ → Option Query → Option Query → Prop
  | none : RewordedFactors s s' 0 none none
  | some {i : ℕ} {query query' : Query} (h : Query.Reworded s s' i query query') :
      RewordedFactors s s' i (some query) (some query')

/-- The same expression before the present operand but for so many texts. -/
inductive Level.Reworded (s s' : String) : ℕ → Level → Level → Prop
  | mk {i j : ℕ} {level level' : Level} (hterms : RewordedTerms s s' i level.terms level'.terms)
      (hfactors : RewordedFactors s s' j level.factors level'.factors) :
      Level.Reworded s s' (i + j) level level'

/-- Changes in the factors of a term and in its last query add up in the term. -/
theorem RewordedFactors.term {i j : ℕ} {level level' : Level} {query query' : Query}
    (h : RewordedFactors s s' i level.factors level'.factors)
    (hquery : Query.Reworded s s' j query query') :
    Query.Reworded s s' (i + j) (level.term query) (level'.term query') := by
  obtain ⟨terms, factors⟩ := level
  obtain ⟨terms', factors'⟩ := level'
  cases h with
  | none =>
    rw [Nat.zero_add]
    exact hquery
  | some hleft => exact .product hleft hquery

namespace Level.Reworded

variable {i j : ℕ} {level level' : Level} {query query' : Query}

theorem start : Level.Reworded s s' 0 .start .start := by
  rw [← Nat.add_zero 0]
  exact .mk .none .none

/-- Changes in a level and in the last query of it add up in the query of the level. -/
theorem total (h : Level.Reworded s s' i level level')
    (hquery : Query.Reworded s s' j query query') :
    Query.Reworded s s' (i + j) (level.total query) (level'.total query') := by
  obtain ⟨hterms, hfactors⟩ := h
  have hterm := hfactors.term hquery
  obtain ⟨terms, factors⟩ := level
  obtain ⟨terms', factors'⟩ := level'
  rw [Nat.add_assoc]
  cases hterms with
  | none =>
    rw [Nat.zero_add]
    exact hterm
  | some hleft operator => exact .combine operator hleft hterm

theorem afterTimes (h : Level.Reworded s s' i level level')
    (hquery : Query.Reworded s s' j query query') :
    Level.Reworded s s' (i + j) (level.afterTimes query) (level'.afterTimes query') := by
  obtain ⟨hterms, hfactors⟩ := h
  rw [Nat.add_assoc]
  exact .mk hterms (.some (hfactors.term hquery))

theorem afterOperator (h : Level.Reworded s s' i level level')
    (hquery : Query.Reworded s s' j query query') (operator : SetOperator) :
    Level.Reworded s s' (i + j) (level.afterOperator query operator)
      (level'.afterOperator query' operator) := by
  rw [← Nat.add_zero (i + j)]
  exact .mk (.some (h.total hquery) operator) .none

end Level.Reworded

/-- The same statement but for so many texts. -/
structure Statement.Reworded (s s' : String) (n : ℕ) (statement statement' : Statement) :
    Prop where
  query : Query.Reworded s s' n statement.query statement'.query
  target : statement.target = statement'.target

end RelationScript
