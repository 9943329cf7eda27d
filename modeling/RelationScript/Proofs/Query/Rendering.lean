/-
# Brackets read back as they are displayed

Displayed, the inside of brackets has no blanks but those behind commas, and yet the scanner cuts
it into the tokens that it came from.  So the display of any condition or list of columns that has
been read is read as the same again.

* `Grammar.Body.display` : the inside of brackets as a script writes it;
* `IsColumn.exists_scans`, `IsBody.exists_scans` : displays are scanned as what they display;
* `ofLine_display` : the display of brackets between other brackets.
-/
import RelationScript.Proofs.Decimal.Writing
import RelationScript.Proofs.Query.Writing

namespace RelationScript

open Token (Spells Stops)

/-! ## Spelled tokens -/

/-- Some text spells the token. -/
def Token.IsSpelled (token : Token) : Prop :=
  ∃ text, Spells token text

/-- A decimal that is spelled at all is spelled by its own characters. -/
theorem Token.IsSpelled.number {value : Decimal} (h : Token.IsSpelled (.number value)) :
    Spells (.number value) value.chars := by
  obtain ⟨text, htext⟩ := h
  exact .number value.isNumeral_chars (Decimal.read_chars_of_read htext.exists_read.2)

theorem Token.IsSpelled.text {value : String} (h : Token.IsSpelled (.text value)) :
    Spells (.text value) ('\x27' :: value.toList ++ ['\x27']) := by
  obtain ⟨text, htext⟩ := h
  exact Token.spells_quoted htext.quote_not_mem

theorem Token.IsSpelled.name {value : String} (h : Token.IsSpelled (.name value)) :
    Text.isName value = true := by
  obtain ⟨text, htext⟩ := h
  exact htext.isName

/-! ## Displays -/

namespace Grammar

/-- The inside of brackets as a script writes it: a condition without blanks, or columns with a
comma and a space between them. -/
def Body.display : Body → String
  | condition c => c.display
  | columns cs => ", ".intercalate (cs.map ColumnRef.columnName)

variable {tokens : List Token} {rest : List Char}

/-- A path begins with its first name. -/
theorem exists_cons_intercalate {first : String} (h : Text.isName first = true)
    (more : List String) :
    ∃ c cs, (".".intercalate (first :: more)).toList = c :: cs ∧ Text.isNameStart c = true := by
  obtain ⟨c, cs, hfirst, hc, -⟩ := Token.exists_cons_of_isName h
  cases more with
  | nil =>
    rw [String.intercalate_singleton]
    exact ⟨c, cs, hfirst, hc⟩
  | cons second more =>
    rw [String.intercalate_cons_cons, String.append_assoc, String.toList_append, hfirst]
    exact ⟨c, _, rfl, hc⟩

theorem isName_of_dotted {first : String} {more : List String}
    (h : ∀ token ∈ .name first :: dotted more, Token.IsSpelled token) :
    ∀ name ∈ first :: more, Text.isName name = true := by
  intro name hname
  refine (h (.name name) ?_).name
  rcases List.mem_cons.mp hname with rfl | hname
  · exact List.mem_cons_self
  · exact List.mem_cons_of_mem _ (List.mem_flatMap.mpr ⟨name, hname, by simp⟩)

/-- The name of a column is scanned as the reference that denotes it. -/
theorem IsColumn.exists_scans {ref : ColumnRef} (h : IsColumn tokens ref)
    (hspelled : ∀ token ∈ tokens, Token.IsSpelled token)
    (hrest : ∀ c ∈ rest.head?, Text.isNameChar c = false) :
    ∃ first used, first.gap = [] ∧
      Scans (ref.columnName.toList ++ rest) (first :: used) rest ∧
      (first :: used).map Lexeme.token = tokens := by
  obtain ⟨first, more, rfl, rfl⟩ := h.exists_path
  obtain ⟨used, hscans, htokens⟩ := exists_scans_path (isName_of_dotted hspelled) hrest
  rw [ColumnRef.columnName_ofPath]
  exact ⟨_, used, rfl, hscans, by rw [List.map_cons, htokens]⟩

/-- The display of a right-hand side is scanned as its tokens, and it does not begin with an equals
sign. -/
theorem IsOperand.exists_scans {operand : Operand} (h : IsOperand tokens operand)
    (hspelled : ∀ token ∈ tokens, Token.IsSpelled token) (more : List Char) :
    (operand.display.toList ++ ']' :: more).head? ≠ some '=' ∧
      ∃ used, Scans (operand.display.toList ++ ']' :: more) used (']' :: more) ∧
        used.map Lexeme.token = tokens := by
  cases h with
  | @column _ ref hcolumn =>
    have hstop : ∀ c ∈ (']' :: more).head?, Text.isNameChar c = false := by
      rintro c ⟨⟩
      decide
    obtain ⟨first, used, -, hscans, htokens⟩ := hcolumn.exists_scans hspelled hstop
    obtain ⟨name, names, rfl, rfl⟩ := hcolumn.exists_path
    obtain ⟨c, cs, hpath, hc⟩ := exists_cons_intercalate
      ((hspelled (.name name) List.mem_cons_self).name) names
    refine ⟨?_, first :: used, hscans, htokens⟩
    rw [Operand.display, ColumnRef.columnName_ofPath, hpath]
    rintro ⟨⟩
    exact absurd hc (by decide)
  | number value =>
    have hspells := (hspelled _ List.mem_cons_self).number
    have hstops : Stops (.number value) value.chars (']' :: more) :=
      (Token.stops_nil _ _).append_delimiter (by decide) more
    have hchars : (Operand.literal (.number value)).display.toList = value.chars :=
      value.toList_text
    rw [hchars]
    refine ⟨?_, _, .token hspells hstops (.nil _), rfl⟩
    obtain ⟨c, cs, hcons, hc⟩ := value.exists_chars_eq_cons
    rw [hcons]
    rintro ⟨⟩
    exact absurd hc (by decide)
  | text value =>
    have hspells := (hspelled _ List.mem_cons_self).text
    have hchars : (Operand.literal (.text value)).display.toList =
        '\x27' :: value.toList ++ ['\x27'] := by
      simp [Operand.display, Literal.display]
    rw [hchars]
    exact ⟨by simp, _, .token hspells trivial (.nil _), rfl⟩

/-- The display of a condition is scanned as its tokens: its column ends before the comparator, and
the comparator before the right-hand side. -/
theorem exists_scans_condition {left right : List Token} {column : ColumnRef} {operand : Operand}
    (hleft : IsColumn left column) (comparator : Comparator) (hright : IsOperand right operand)
    (hspelled : ∀ token ∈ left ++ .comparator comparator :: right, Token.IsSpelled token)
    (more : List Char) :
    ∃ first used, first.gap = [] ∧
      Scans ((Condition.display ⟨column, comparator, operand⟩).toList ++ ']' :: more)
        (first :: used) (']' :: more) ∧
      (first :: used).map Lexeme.token = left ++ .comparator comparator :: right := by
  obtain ⟨hleftSpelled, hspelled⟩ := List.forall_mem_append.mp hspelled
  obtain ⟨-, hrightSpelled⟩ := List.forall_mem_cons.mp hspelled
  obtain ⟨hequals, back, hback, hbackTokens⟩ := hright.exists_scans hrightSpelled more
  have hstops : Stops (.comparator comparator) comparator.symbol.toList
      (operand.display.toList ++ ']' :: more) := by
    cases comparator with
    | less | greater => exact hequals
    | _ => trivial
  have hcomparator := Scans.symbol (.comparator comparator) rfl hstops hback
  have hname : ∀ c ∈ (comparator.symbol.toList ++
      (operand.display.toList ++ ']' :: more)).head?, Text.isNameChar c = false := by
    cases comparator <;> rintro c ⟨⟩ <;> decide
  obtain ⟨first, used, hgap, hcolumn, htokens⟩ := hleft.exists_scans hleftSpelled hname
  have hscans := hcolumn.append hcomparator
  refine ⟨first, used ++ ⟨.comparator comparator, [], comparator.symbol.toList⟩ :: back, hgap,
    ?_, ?_⟩
  · simpa [Condition.display] using hscans
  · rw [← List.cons_append, List.map_append, htokens, List.map_cons, hbackTokens]

/-- The display of a list of columns is scanned as its tokens: a comma ends each column but the
last, and the space behind it is no token. -/
theorem exists_scans_columns {column : ColumnRef} (hfirst : IsColumn tokens column)
    (items : List (List Token × ColumnRef)) (hitems : ∀ item ∈ items, IsColumn item.1 item.2)
    (hspelled : ∀ token ∈ tokens ++ items.flatMap fun item => .comma :: item.1,
      Token.IsSpelled token) (more : List Char) :
    ∃ first used, first.gap = [] ∧
      Scans ((Body.columns (column :: items.map Prod.snd)).display.toList ++ ']' :: more)
        (first :: used) (']' :: more) ∧
      (first :: used).map Lexeme.token = tokens ++ items.flatMap fun item => .comma :: item.1 := by
  induction items generalizing tokens column with
  | nil =>
    rw [List.flatMap_nil, List.append_nil] at hspelled
    have hstop : ∀ c ∈ (']' :: more).head?, Text.isNameChar c = false := by
      rintro c ⟨⟩
      decide
    obtain ⟨first, used, hgap, hscans, htokens⟩ := hfirst.exists_scans hspelled hstop
    refine ⟨first, used, hgap, ?_, by simpa using htokens⟩
    simpa [Body.display] using hscans
  | cons item items ih =>
    rw [List.forall_mem_cons] at hitems
    obtain ⟨hfirstSpelled, hspelled⟩ := List.forall_mem_append.mp hspelled
    rw [List.flatMap_cons, List.cons_append, List.forall_mem_cons] at hspelled
    obtain ⟨second, back, -, hback, hbackTokens⟩ := ih hitems.1 hitems.2 hspelled.2
    -- A comma and a space stand before the columns left.
    have hcomma := Scans.symbol .comma rfl trivial hback.space
    have hstop : ∀ c ∈ ([','] ++ (' ' ::
        ((Body.columns (item.2 :: items.map Prod.snd)).display.toList ++ ']' :: more))).head?,
        Text.isNameChar c = false := by
      rintro c ⟨⟩
      decide
    obtain ⟨first, used, hgap, hcolumn, htokens⟩ := hfirst.exists_scans hfirstSpelled hstop
    have hscans := hcolumn.append hcomma
    have hdisplay : (Body.columns (column :: (item :: items).map Prod.snd)).display.toList ++
          ']' :: more =
        column.columnName.toList ++ ([','] ++ (' ' ::
          ((Body.columns (item.2 :: items.map Prod.snd)).display.toList ++ ']' :: more))) := by
      simp [Body.display, String.intercalate_cons_cons]
    rw [hdisplay]
    refine ⟨first, used ++ ⟨.comma, [], [',']⟩ ::
      ⟨second.token, ' ' :: second.gap, second.text⟩ :: back, hgap, hscans, ?_⟩
    rw [List.map_cons] at hbackTokens
    rw [← List.cons_append, List.map_append, htokens, List.map_cons, List.map_cons, hbackTokens,
      List.flatMap_cons, List.cons_append]

/-- The display of a body is scanned as its tokens. -/
theorem IsBody.exists_scans {body : Body} (h : IsBody tokens body)
    (hspelled : ∀ token ∈ tokens, Token.IsSpelled token) (more : List Char) :
    ∃ first used, first.gap = [] ∧
      Scans (body.display.toList ++ ']' :: more) (first :: used) (']' :: more) ∧
      (first :: used).map Lexeme.token = tokens := by
  cases h with
  | condition hleft comparator hright =>
    exact exists_scans_condition hleft comparator hright hspelled more
  | columns hfirst items hitems => exact exists_scans_columns hfirst items hitems hspelled more

end Grammar

/-! ## Lines -/

/-- Tokens of a body that can be spelled are read again from its display. -/
theorem ofLine_of_isBody {tokens : List Token} {body : Grammar.Body}
    (hbody : Grammar.IsBody tokens body) (hspelled : ∀ token ∈ tokens, Token.IsSpelled token)
    {name target : String} (hname : Text.isName name = true)
    (htarget : Text.isName target = true) :
    Statement.ofLine (name ++ "[" ++ body.display ++ "] -> " ++ target) =
      .ok ⟨body.query (.named name) body.display, target⟩ := by
  obtain ⟨first, used, hgap, hscans, rfl⟩ := hbody.exists_scans hspelled []
  exact ofLine_of_scans hscans hgap hbody hname htarget

/-- **Reading undoes display.**  Take a condition of any line that reads as a statement, and display
it between the brackets of any name: the new line has the same condition, and its display as the
text of the brackets.  So it is with the columns of a projection. -/
theorem ofLine_display {line : String} {statement : Statement}
    (h : Statement.ofLine line = .ok statement) {name target : String}
    (hname : Text.isName name = true) (htarget : Text.isName target = true) :
    (∀ base condition text, .select base condition text ∈ statement.query.subqueries →
        Statement.ofLine (name ++ "[" ++ condition.display ++ "] -> " ++ target) =
          .ok ⟨.select (.named name) condition condition.display, target⟩) ∧
      ∀ base columns text, .project base columns text ∈ statement.query.subqueries →
        Statement.ofLine (name ++ "[" ++ ", ".intercalate (columns.map ColumnRef.columnName) ++
            "] -> " ++ target) =
          .ok ⟨.project (.named name) columns
            (", ".intercalate (columns.map ColumnRef.columnName)), target⟩ := by
  have hbody : ∀ base (body : Grammar.Body) text,
      body.query base text ∈ statement.query.subqueries →
        Statement.ofLine (name ++ "[" ++ body.display ++ "] -> " ++ target) =
          .ok ⟨body.query (.named name) body.display, target⟩ := by
    intro base body text hpart
    obtain ⟨cs, inner, rest, hscans, hbody, -⟩ :=
      exists_scans_of_mem_brackets h (Query.mem_brackets_of_mem_subqueries hpart)
    -- The tokens of the body have been found in the line, so there they are spelled.
    refine ofLine_of_isBody hbody (fun token htoken => ?_) hname htarget
    obtain ⟨lexeme, hlexeme, rfl⟩ := List.mem_map.mp htoken
    exact ⟨lexeme.text, hscans.spells_of_mem lexeme hlexeme⟩
  exact ⟨fun base condition => hbody base (.condition condition),
    fun base columns => hbody base (.columns columns)⟩

/-- A path of three names, a comparator before a minus sign, and a text that holds comparators. -/
theorem ofLine_display_of_stackedPath :
    ∃ statement, Statement.ofLine "A[a.b . x <= -1.50][y!='<=] ->']->R" = .ok statement ∧
      Text.isName "X" = true ∧ Text.isName "T" = true ∧
      Statement.ofLine ("X" ++ "[" ++ "a.b.x<=-1.50" ++ "] -> " ++ "T") =
        .ok ⟨.select (.named "X") ⟨⟨some "a.b", "x"⟩, .lessEqual,
          .literal (.number ⟨true, 150, 2, by decide, by decide⟩)⟩ "a.b.x<=-1.50", "T"⟩ ∧
      Statement.ofLine ("X" ++ "[" ++ "y!='<=] ->'" ++ "] -> " ++ "T") =
        .ok ⟨.select (.named "X") ⟨⟨none, "y"⟩, .notEqual, .literal (.text "<=] ->")⟩
          "y!='<=] ->'", "T"⟩ := by
  have hread : ∃ statement, Statement.ofLine "A[a.b . x <= -1.50][y!='<=] ->']->R" = .ok statement ∧
      statement.query = .select (.select (.named "A") ⟨⟨some "a.b", "x"⟩, .lessEqual,
          .literal (.number ⟨true, 150, 2, by decide, by decide⟩)⟩ "a.b . x <= -1.50")
        ⟨⟨none, "y"⟩, .notEqual, .literal (.text "<=] ->")⟩ "y!='<=] ->'" :=
    ⟨_, by cbv, by cbv⟩
  obtain ⟨statement, h, hquery⟩ := hread
  have hname : Text.isName "X" = true := by decide
  have htarget : Text.isName "T" = true := by decide
  obtain ⟨hselect, -⟩ := ofLine_display h hname htarget
  rw [hquery] at hselect
  have hnumber : Condition.display ⟨⟨some "a.b", "x"⟩, .lessEqual,
      .literal (.number ⟨true, 150, 2, by decide, by decide⟩)⟩ = "a.b.x<=-1.50" := by cbv
  have htext : Condition.display ⟨⟨none, "y"⟩, .notEqual, .literal (.text "<=] ->")⟩ =
      "y!='<=] ->'" := by cbv
  have hinner := hselect _ _ _ (List.mem_cons_of_mem _ List.mem_cons_self)
  have houter := hselect _ _ _ List.mem_cons_self
  rw [hnumber] at hinner
  rw [htext] at houter
  exact ⟨statement, h, hname, htarget, hinner, houter⟩

end RelationScript
