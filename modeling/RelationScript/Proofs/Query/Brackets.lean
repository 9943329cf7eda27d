/-
# Brackets and their grammar

The readers of columns, conditions and brackets accept exactly what the grammar derives.

* `Lexeme.ofTokens` : tokens as a line, with nothing that writes them;
* `IsBody.holdsCondition_eq` : looking ahead for a comparator chooses as the grammar does;
* `readBracket_of_isBody`, `readBracket_append` : a body and its closing bracket are read;
* `isBody_of_readBracket` : what is read is a body and its closing bracket.
-/
import RelationScript.Proofs.Query.Tokens

namespace RelationScript

/-! ## Tokens without a source -/

/-- Tokens as the lexemes of a line, with nothing that writes them. -/
def Lexeme.ofTokens (tokens : List Token) : List Lexeme :=
  tokens.map fun token => ⟨token, [], []⟩

open Lexeme (ofTokens)

/-- Bare lexemes are no more than their tokens. -/
theorem map_bare (lexemes : List Lexeme) :
    lexemes.map Lexeme.bare = ofTokens (lexemes.map Lexeme.token) := by
  simp [ofTokens, Lexeme.bare]

@[simp] theorem ofTokens_nil : ofTokens [] = [] := rfl

@[simp] theorem ofTokens_cons (token : Token) (tokens : List Token) :
    ofTokens (token :: tokens) = ⟨token, [], []⟩ :: ofTokens tokens := rfl

/-- Lexemes of tokens may be made in parts. -/
@[simp] theorem ofTokens_append (left right : List Token) :
    ofTokens (left ++ right) = ofTokens left ++ ofTokens right :=
  List.map_append

@[simp] theorem written_ofTokens (tokens : List Token) : Lexeme.written (ofTokens tokens) = [] := by
  cases tokens <;> simp [Lexeme.written, ofTokens]

namespace Grammar

/-! ## Columns -/

@[simp] theorem dotted_cons (name : String) (names : List String) :
    dotted (name :: names) = .dot :: .name name :: dotted names := rfl

/-- Names with dots between them write the column that the path refers to. -/
theorem isColumn_ofPath (first : String) (more : List String) :
    IsColumn (.name first :: dotted more) (.ofPath first more) := by
  -- The last name is the column, and those before it are its qualifier.
  rcases List.eq_nil_or_concat more with rfl | ⟨middle, last, rfl⟩
  · exact .plain first
  · have hpath : ColumnRef.ofPath first (middle ++ [last]) =
        ⟨some (".".intercalate (first :: middle)), last⟩ := by
      simp [ColumnRef.ofPath]
    rw [List.concat_eq_append, hpath]
    exact .qualified first middle last

/-- Tokens that write a column are names with dots between them. -/
theorem IsColumn.exists_path {tokens : List Token} {ref : ColumnRef} (h : IsColumn tokens ref) :
    ∃ first more, tokens = .name first :: dotted more ∧ ref = .ofPath first more := by
  cases h with
  | plain name => exact ⟨name, [], rfl, rfl⟩
  | qualified first middle last =>
    exact ⟨first, middle ++ [last], rfl, by simp [ColumnRef.ofPath]⟩

/-- The reader takes names as long as dots stand before them. -/
theorem readDotted_dotted (names : List String) {rest : List Lexeme}
    (hrest : nextToken rest ≠ .dot) :
    readDotted (ofTokens (dotted names) ++ rest) = (.ok names, rest) := by
  induction names with
  | nil =>
    rw [readDotted_eq]
    exact if_neg hrest
  | cons name names ih =>
    simp only [dotted_cons, ofTokens_cons, List.cons_append, readDotted]
    rw [ih]
    rfl

/-- The reader takes a column to its last name, if no dot follows. -/
theorem readColumn_of_isColumn {tokens : List Token} {ref : ColumnRef} (h : IsColumn tokens ref)
    {rest : List Lexeme} (hrest : nextToken rest ≠ .dot) :
    readColumn (ofTokens tokens ++ rest) = (.ok ref, rest) := by
  obtain ⟨first, more, rfl, rfl⟩ := h.exists_path
  rw [ofTokens_cons, List.cons_append, readColumn, readDotted_dotted more hrest]
  rfl

/-! ## Completeness of the readers of brackets -/

/-- The reader takes columns to the last one, if no comma follows. -/
theorem readColumns_of_isColumn {tokens : List Token} {column : ColumnRef}
    (h : IsColumn tokens column) (more : List (List Token × ColumnRef))
    (hmore : ∀ item ∈ more, IsColumn item.1 item.2) {rest : List Lexeme}
    (hdot : nextToken rest ≠ .dot) (hcomma : nextToken rest ≠ .comma) :
    readColumns (ofTokens (tokens ++ more.flatMap fun item => .comma :: item.1) ++ rest) =
      (.ok (column :: more.map Prod.snd), rest) := by
  induction more generalizing tokens column with
  | nil =>
    rw [readColumns_eq, List.flatMap_nil, List.append_nil, readColumn_of_isColumn h hdot]
    exact if_neg hcomma
  | cons item more ih =>
    rw [List.forall_mem_cons] at hmore
    rw [List.flatMap_cons, List.cons_append, ofTokens_append, ofTokens_cons, List.append_assoc,
      List.cons_append, readColumns_eq, readColumn_of_isColumn h (by simp [nextToken])]
    simp only [Reading.andThen, nextToken, if_pos, List.tail_cons]
    rw [ih hmore.1 hmore.2]
    rfl

/-- What writes an operand is read as one. -/
theorem readComparand_of_isOperand {tokens : List Token} {operand : Operand}
    (h : IsOperand tokens operand) {rest : List Lexeme} (hrest : nextToken rest ≠ .dot) :
    readComparand (ofTokens tokens ++ rest) = (.ok operand, rest) := by
  cases h with
  | column hcolumn =>
    obtain ⟨first, more, rfl, rfl⟩ := hcolumn.exists_path
    rw [readComparand_eq, readColumn_of_isColumn hcolumn hrest]
    rfl
  | number value => rfl
  | text value => rfl

/-- A column, a comparator and an operand are read as a condition. -/
theorem readCondition_of_isColumn {left right : List Token} {column : ColumnRef}
    {operand : Operand} (hleft : IsColumn left column) (comparator : Comparator)
    (hright : IsOperand right operand) {rest : List Lexeme} (hrest : nextToken rest ≠ .dot) :
    readCondition (ofTokens (left ++ .comparator comparator :: right) ++ rest) =
      (.ok ⟨column, comparator, operand⟩, rest) := by
  rw [ofTokens_append, ofTokens_cons, List.append_assoc, List.cons_append, readCondition,
    readColumn_of_isColumn hleft (by simp [nextToken])]
  simp only [Reading.andThen, readComparison]
  rw [readComparand_of_isOperand hright hrest]
  rfl

/-! ## The choice between the kinds of brackets -/

/-- Only names and dots write columns. -/
theorem IsColumn.token_eq {tokens : List Token} {ref : ColumnRef} (h : IsColumn tokens ref)
    {token : Token} (htoken : token ∈ tokens) : token = .dot ∨ ∃ name, token = .name name := by
  obtain ⟨first, more, rfl, -⟩ := h.exists_path
  rcases List.mem_cons.mp htoken with rfl | htoken
  · exact Or.inr ⟨first, rfl⟩
  · obtain ⟨name, -, hname⟩ := List.mem_flatMap.mp htoken
    have hcases : token = .dot ∨ token = .name name := by simpa using hname
    exact hcases.imp_right fun h => ⟨name, h⟩

/-- Something stands between brackets. -/
theorem IsBody.ne_nil {tokens : List Token} {body : Body} (h : IsBody tokens body) :
    tokens ≠ [] := by
  cases h with
  | condition hleft comparator hright => simp
  | columns hfirst more hmore =>
    obtain ⟨first, names, rfl, -⟩ := hfirst.exists_path
    simp

/-- The tokens of a body open no brackets, close none and do not end the line. -/
theorem IsBody.token_ne {tokens : List Token} {body : Body} (h : IsBody tokens body) :
    ∀ token ∈ tokens,
      token ≠ .openBracket ∧ token ≠ .closeBracket ∧ token ≠ .endOfLine := by
  have hcolumn : ∀ {tokens : List Token} {ref : ColumnRef}, IsColumn tokens ref →
      ∀ token ∈ tokens, token ≠ .openBracket ∧ token ≠ .closeBracket ∧ token ≠ .endOfLine := by
    intro tokens ref h token htoken
    rcases h.token_eq htoken with rfl | ⟨name, rfl⟩ <;> simp
  cases h with
  | condition hleft comparator hright =>
    rw [List.forall_mem_append, List.forall_mem_cons]
    refine ⟨hcolumn hleft, by simp, ?_⟩
    cases hright with
    | column h => exact hcolumn h
    | number value => simp
    | text value => simp
  | columns hfirst more hmore =>
    rw [List.forall_mem_append]
    refine ⟨hcolumn hfirst, fun token htoken => ?_⟩
    obtain ⟨item, hitem, htoken⟩ := List.mem_flatMap.mp htoken
    rcases List.mem_cons.mp htoken with rfl | htoken
    · simp
    · exact hcolumn (hmore item hitem) token htoken

/-- The search for a comparator goes through tokens that end no brackets. -/
theorem holdsCondition_ofTokens_append {tokens : List Token}
    (htokens : ∀ token ∈ tokens, token ≠ .closeBracket ∧ token ≠ .endOfLine)
    (rest : List Lexeme) :
    holdsCondition (ofTokens tokens ++ rest) =
      (tokens.any Token.isComparator || holdsCondition rest) := by
  have htake : ∀ lexeme ∈ ofTokens tokens,
      (lexeme.token != .closeBracket && lexeme.token != .endOfLine) = true := by
    intro lexeme hlexeme
    obtain ⟨token, htoken, rfl⟩ := List.mem_map.mp hlexeme
    simpa using htokens token htoken
  rw [holdsCondition, List.takeWhile_append_of_pos htake, List.any_append, ofTokens, List.any_map]
  rfl

/-- Whether the brackets are those of a selection. -/
def Body.isCondition : Body → Bool
  | condition _ => true
  | columns _ => false

/-- **The choice is that of the grammar.**  Looking ahead to the closing bracket for a
comparator tells the body of a selection from that of a projection. -/
theorem IsBody.holdsCondition_eq {tokens : List Token} {body : Body} (h : IsBody tokens body)
    (rest : List Token) :
    holdsCondition (ofTokens tokens ++ ofTokens (.closeBracket :: rest)) = body.isCondition := by
  have hclose : holdsCondition (ofTokens (.closeBracket :: rest)) = false := by
    simp [holdsCondition]
  -- Columns are made of names and dots, so a comparator comes from a condition only.
  have hcolumn : ∀ {tokens : List Token} {ref : ColumnRef}, IsColumn tokens ref →
      tokens.any Token.isComparator = false := by
    intro tokens ref h
    rw [List.any_eq_false]
    intro token htoken
    rcases h.token_eq htoken with rfl | ⟨name, rfl⟩ <;> simp [Token.isComparator]
  rw [holdsCondition_ofTokens_append fun token htoken => (h.token_ne token htoken).2, hclose,
    Bool.or_false]
  cases h with
  | condition hleft comparator hright => simp [Token.isComparator, Body.isCondition]
  | columns hfirst more hmore =>
    rw [List.any_append, hcolumn hfirst, Bool.false_or, List.any_flatMap, Body.isCondition,
      List.any_eq_false]
    intro item hitem
    simp [Token.isComparator, hcolumn (hmore item hitem)]

/-- A body and the closing bracket behind it are read as the grammar has it. -/
theorem readBracket_of_isBody {tokens : List Token} {body : Body} (h : IsBody tokens body)
    (base : Query) (rest : List Token) :
    readBracket base (ofTokens (tokens ++ .closeBracket :: rest)) =
      (.ok (body.restrict base), ofTokens rest) := by
  have hdot : nextToken (ofTokens (.closeBracket :: rest)) ≠ .dot := by simp [nextToken]
  have hcomma : nextToken (ofTokens (.closeBracket :: rest)) ≠ .comma := by simp [nextToken]
  have htext : textBetween (ofTokens tokens ++ ofTokens (.closeBracket :: rest))
      (ofTokens (.closeBracket :: rest)) = "" := by
    simp [textBetween]
  have hholds := h.holdsCondition_eq rest
  have hbody : readBody base (ofTokens (tokens ++ .closeBracket :: rest)) =
      (.ok (body.restrict base), ofTokens (.closeBracket :: rest)) := by
    rw [ofTokens_append, readBody, hholds]
    cases h with
    | condition hleft comparator hright =>
      rw [Body.isCondition, if_pos rfl, readCondition_of_isColumn hleft comparator hright hdot]
      simp only [Reading.andThen]
      rw [htext]
      rfl
    | columns hfirst more hmore =>
      rw [Body.isCondition, if_neg Bool.false_ne_true,
        readColumns_of_isColumn hfirst more hmore hdot hcomma]
      simp only [Reading.andThen]
      rw [htext]
      rfl
  rw [readBracket, hbody]
  rfl

/-! ## Soundness of the readers of brackets -/

/-- What the reader takes for the rest of a column are names with dots before them. -/
theorem map_token_of_readDotted {lexemes rest : List Lexeme} {names : List String}
    (h : readDotted lexemes = (.ok names, rest)) :
    lexemes.map Lexeme.token = dotted names ++ rest.map Lexeme.token := by
  fun_induction readDotted lexemes generalizing names with
  | case1 gap text name gap' text' more ih =>
    obtain ⟨names, hnames, rfl⟩ := Reading.map_eq_ok.mp h
    simp [ih hnames]
  | case2 => exact absurd h unexpected_ne_ok
  | case3 =>
    obtain ⟨rfl, rfl⟩ : [] = names ∧ _ = rest := by simpa using h
    rfl

/-- What the reader takes for a column writes that column. -/
theorem isColumn_of_readColumn {lexemes rest : List Lexeme} {ref : ColumnRef}
    (h : readColumn lexemes = (.ok ref, rest)) :
    ∃ tokens, IsColumn tokens ref ∧
      lexemes.map Lexeme.token = tokens ++ rest.map Lexeme.token := by
  rw [readColumn_eq] at h
  split at h
  next first hfirst =>
    obtain ⟨more, hmore, rfl⟩ := Reading.map_eq_ok.mp h
    refine ⟨_, isColumn_ofPath first more, ?_⟩
    rw [map_token_eq hfirst (by simp), map_token_of_readDotted hmore]
    rfl
  next => exact absurd h unexpected_ne_ok

/-- What the reader takes for a list of columns writes those columns. -/
theorem isBody_of_readColumns {lexemes rest : List Lexeme} {columns : List ColumnRef}
    (h : readColumns lexemes = (.ok columns, rest)) :
    ∃ tokens, IsBody tokens (.columns columns) ∧
      lexemes.map Lexeme.token = tokens ++ rest.map Lexeme.token := by
  fun_induction readColumns lexemes generalizing columns with
  | case1 lexemes column gap text more hcolumn ih =>
    obtain ⟨columns, hcolumns, rfl⟩ := Reading.map_eq_ok.mp h
    obtain ⟨first, hfirst, hleft⟩ := isColumn_of_readColumn hcolumn
    obtain ⟨tokens, hbody, hright⟩ := ih hcolumns
    cases hbody with
    | @columns second _ hsecond items hitems =>
      refine ⟨_, .columns hfirst ((second, _) :: items)
        (List.forall_mem_cons.mpr ⟨hsecond, hitems⟩), ?_⟩
      rw [hleft, List.map_cons, hright]
      simp
  | case2 lexemes column left hcomma hcolumn =>
    obtain ⟨rfl, rfl⟩ : [column] = columns ∧ left = rest := by simpa using h
    obtain ⟨tokens, hfirst, hleft⟩ := isColumn_of_readColumn hcolumn
    exact ⟨_, .columns hfirst [] (by simp), by simpa using hleft⟩
  | case3 => simp at h

/-- What the reader takes for an operand writes that operand. -/
theorem isOperand_of_readComparand {lexemes rest : List Lexeme} {operand : Operand}
    (h : readComparand lexemes = (.ok operand, rest)) :
    ∃ tokens, IsOperand tokens operand ∧
      lexemes.map Lexeme.token = tokens ++ rest.map Lexeme.token := by
  rw [readComparand_eq] at h
  split at h
  next value hnext =>
    obtain ⟨rfl, rfl⟩ : Operand.literal (.number value) = operand ∧ lexemes.tail = rest := by
      simpa using h
    exact ⟨_, .number value, map_token_eq hnext (by simp)⟩
  next value hnext =>
    obtain ⟨rfl, rfl⟩ : Operand.literal (.text value) = operand ∧ lexemes.tail = rest := by
      simpa using h
    exact ⟨_, .text value, map_token_eq hnext (by simp)⟩
  next =>
    obtain ⟨ref, href, rfl⟩ := Reading.map_eq_ok.mp h
    obtain ⟨tokens, hcolumn, htokens⟩ := isColumn_of_readColumn href
    exact ⟨tokens, .column hcolumn, htokens⟩
  next => exact absurd h unexpected_ne_ok

/-- What the reader takes for a condition writes that condition. -/
theorem isBody_of_readCondition {lexemes rest : List Lexeme} {condition : Condition}
    (h : readCondition lexemes = (.ok condition, rest)) :
    ∃ tokens, IsBody tokens (.condition condition) ∧
      lexemes.map Lexeme.token = tokens ++ rest.map Lexeme.token := by
  obtain ⟨column, more, hcolumn, hmore⟩ := Reading.andThen_eq_ok.mp h
  obtain ⟨left, hleft, hlexemes⟩ := isColumn_of_readColumn hcolumn
  rw [readComparison_eq] at hmore
  split at hmore
  next comparator hnext =>
    obtain ⟨operand, hoperand, rfl⟩ := Reading.map_eq_ok.mp hmore
    obtain ⟨right, hright, htail⟩ := isOperand_of_readComparand hoperand
    refine ⟨_, .condition hleft comparator hright, ?_⟩
    rw [hlexemes, map_token_eq hnext (by simp), htail]
    simp
  next => exact absurd hmore unexpected_ne_ok

/-- A reader that gets past some tokens has used up the lexemes of these. -/
theorem exists_used {lexemes rest : List Lexeme} {tokens : List Token} (h : rest <:+ lexemes)
    (htokens : lexemes.map Lexeme.token = tokens ++ rest.map Lexeme.token) :
    ∃ used, lexemes = used ++ rest ∧ used.map Lexeme.token = tokens := by
  obtain ⟨used, rfl⟩ := h
  rw [List.map_append] at htokens
  exact ⟨used, rfl, List.append_cancel_right htokens⟩

/-- The query that brackets make of the query before them, when `text` writes their inside. -/
def Body.query (base : Query) (text : String) : Body → Query
  | condition c => .select base c text
  | columns cs => .project base cs text

@[simp] theorem Body.bare_query (base : Query) (text : String) (body : Body) :
    (body.query base text).bare = body.restrict base.bare := by
  cases body <;> rfl

theorem Body.restrict_injective (base : Query) : Function.Injective (Body.restrict base) := by
  intro a b h
  cases a <;> cases b <;> simp_all [restrict]

/-- The lexemes taken between brackets write the body, and the text of the body is theirs. -/
theorem isBody_of_readBody {base query : Query} {lexemes rest : List Lexeme}
    (h : readBody base lexemes = (.ok query, rest)) :
    ∃ inner body, lexemes = inner ++ rest ∧ IsBody (inner.map Lexeme.token) body ∧
      query = body.query base (String.ofList (Lexeme.written inner)) := by
  unfold readBody at h
  split at h
  · obtain ⟨condition, left, hcondition, hread⟩ := Reading.andThen_eq_ok.mp h
    obtain ⟨rfl, rfl⟩ := by simpa using hread
    obtain ⟨tokens, hbody, htokens⟩ := isBody_of_readCondition hcondition
    have hsuffix := readCondition_suffix lexemes
    rw [hcondition] at hsuffix
    obtain ⟨inner, rfl, rfl⟩ := exists_used hsuffix htokens
    exact ⟨inner, .condition condition, rfl, hbody, by rw [textBetween_append, Body.query]⟩
  · obtain ⟨columns, left, hcolumns, hread⟩ := Reading.andThen_eq_ok.mp h
    obtain ⟨rfl, rfl⟩ := by simpa using hread
    obtain ⟨tokens, hbody, htokens⟩ := isBody_of_readColumns hcolumns
    have hsuffix := readColumns_suffix lexemes
    rw [hcolumns] at hsuffix
    obtain ⟨inner, rfl, rfl⟩ := exists_used hsuffix htokens
    exact ⟨inner, .columns columns, rfl, hbody, by rw [textBetween_append, Body.query]⟩

/-- What is read between brackets is a body of the grammar, and its text is what writes it. -/
theorem isBody_of_readBracket {base query : Query} {lexemes rest : List Lexeme}
    (h : readBracket base lexemes = (.ok query, rest)) :
    ∃ inner closing body, lexemes = inner ++ closing :: rest ∧ closing.token = .closeBracket ∧
      IsBody (inner.map Lexeme.token) body ∧
      query = body.query base (String.ofList (Lexeme.written inner)) := by
  obtain ⟨read, left, hread, hclose⟩ := Reading.andThen_eq_ok.mp h
  obtain ⟨_, hexpect, rfl⟩ := Reading.map_eq_ok.mp hclose
  obtain ⟨hnext, rfl⟩ := expect_eq_ok.mp hexpect
  obtain ⟨closing, hclosing, hleft⟩ := eq_cons_of_nextToken hnext (by simp)
  obtain ⟨inner, body, rfl, hbody, rfl⟩ := isBody_of_readBody hread
  exact ⟨inner, closing, body, by rw [← hleft], hclosing, hbody, rfl⟩

/-- A body and the closing bracket behind it are read whatever writes them. -/
theorem readBracket_append {inner : List Lexeme} {closing : Lexeme} {body : Body}
    (hbody : IsBody (inner.map Lexeme.token) body) (hclose : closing.token = .closeBracket)
    (base : Query) (rest : List Lexeme) :
    readBracket base (inner ++ closing :: rest) =
      (.ok (body.query base (String.ofList (Lexeme.written inner))), rest) := by
  have hbare := readBracket_map_bare base (inner ++ closing :: rest)
  rw [map_bare, List.map_append, List.map_cons, hclose,
    readBracket_of_isBody hbody, ← map_bare] at hbare
  rcases hread : readBracket base (inner ++ closing :: rest) with ⟨fault | query, left⟩
  · simp [hread, Reading.erase, Except.map] at hbare
  · obtain ⟨hquery, hleft⟩ : body.restrict base.bare = query.bare ∧
        rest.map Lexeme.bare = left.map Lexeme.bare := by
      simpa [hread, Reading.erase, Except.map] using hbare
    -- As many lexemes are left as there are behind the brackets, so the body ends where it should.
    have hlength : rest.length = left.length := by simpa using congrArg List.length hleft
    obtain ⟨inner', closing', body', hsplit, -, -, rfl⟩ := isBody_of_readBracket hread
    obtain ⟨rfl, hrest⟩ := List.append_inj' hsplit (by simp [hlength])
    obtain ⟨rfl, rfl⟩ := List.cons.inj hrest
    rw [Body.bare_query] at hquery
    rw [Body.restrict_injective _ hquery]

end Grammar

end RelationScript
