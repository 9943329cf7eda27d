/-
# Readings alike

The readers look for brackets, comparators and arrows among the tokens of a line, and they look
into no text.  So they take the same way through lines that are the same but for some texts.

* `Reading.Alike` : what a reader makes of two such lines;
* `readBody_alike`, `readFromOperator_alike`, … : each reader takes the same way;
* `readStatement_alike` : and so a line is read.
-/
import RelationScript.Proofs.Query.Rewording
import RelationScript.Proofs.Query.Tokens

namespace RelationScript

variable {s s' : String}

/-! ## Readings alike -/

/-- What a reader makes of two lists that are the same but for `n` texts: it expects the same where
it fails, or it yields what is related.  The texts are then shared out between what has been
used up and what is left. -/
inductive Reading.Alike {α : Type} (s s' : String) (r : ℕ → α → α → Prop) (n : ℕ)
    (lexemes lexemes' : List Lexeme) : Reading α → Reading α → Prop
  | ok {i j : ℕ} {value value' : α} {used used' rest rest' : List Lexeme}
      (hvalue : r i value value')
      (hused : Rewords (Lexeme.Reworded s s') i used used')
      (hrest : Rewords (Lexeme.Reworded s s') j rest rest') (hcount : i + j = n)
      (hsplit : lexemes = used ++ rest) (hsplit' : lexemes' = used' ++ rest') :
      Alike s s' r n lexemes lexemes' (.ok value, rest) (.ok value', rest')
  | error (expected : Expectation) (found found' : Token) (rest rest' : List Lexeme) :
      Alike s s' r n lexemes lexemes' (.error ⟨expected, found⟩, rest)
        (.error ⟨expected, found'⟩, rest')

/-- The same value, with no change in it. -/
def Same {α : Type} (n : ℕ) (value value' : α) : Prop := n = 0 ∧ value = value'

namespace Reading.Alike

variable {α β : Type} {r : ℕ → α → α → Prop} {q : ℕ → β → β → Prop} {n : ℕ}
  {lexemes lexemes' : List Lexeme} {reading reading' : Reading α}

theorem unexpected (expected : Expectation) (rest rest' : List Lexeme) :
    Alike s s' r n lexemes lexemes' (RelationScript.unexpected expected rest)
      (RelationScript.unexpected expected rest') :=
  .error expected _ _ rest rest'

/-- A value that has used up nothing. -/
theorem stay {value value' : α} (hvalue : r 0 value value')
    (h : Rewords (Lexeme.Reworded s s') n lexemes lexemes') :
    Alike s s' r n lexemes lexemes' (.ok value, lexemes) (.ok value', lexemes') :=
  .ok hvalue .nil h (Nat.zero_add n) rfl rfl

/-- A reading that goes on has used up what was used up before. -/
theorem after {i : ℕ} {used used' : List Lexeme}
    (hused : Rewords (Lexeme.Reworded s s') i used used')
    (h : Alike s s' (fun k => r (i + k)) n lexemes lexemes' reading reading') :
    Alike s s' r (i + n) (used ++ lexemes) (used' ++ lexemes') reading reading' := by
  cases h with
  | ok hvalue hmore hrest hcount hsplit hsplit' =>
    refine .ok hvalue (hused.append hmore) hrest (by omega) ?_ ?_
    · rw [hsplit, List.append_assoc]
    · rw [hsplit', List.append_assoc]
  | error expected found found' rest rest' => exact .error expected found found' rest rest'

/-- A reading behind a lexeme that both lines share. -/
theorem same (lexeme : Lexeme) (h : Alike s s' r n lexemes lexemes' reading reading') :
    Alike s s' r (0 + n) (lexeme :: lexemes) (lexeme :: lexemes') reading reading' := by
  cases h with
  | ok hvalue hused hrest hcount hsplit hsplit' =>
    have hfirst := Rewords.cons (.same lexeme) hused
    rw [Nat.zero_add] at hfirst
    rw [hsplit, hsplit']
    exact .ok hvalue hfirst hrest (by omega) rfl rfl
  | error expected found found' rest rest' => exact .error expected found found' rest rest'

/-- Two readings in a row are alike if the second ones are from wherever the first ones end. The
contexts of what has been read are counted on. -/
theorem andThen {next next' : α → List Lexeme → Reading β}
    (h : Alike s s' r n lexemes lexemes' reading reading')
    (hnext : ∀ i j value value' used used' rest rest', r i value value' →
      Rewords (Lexeme.Reworded s s') i used used' → Rewords (Lexeme.Reworded s s') j rest rest' →
        lexemes = used ++ rest → lexemes' = used' ++ rest' →
          Alike s s' (fun k => q (i + k)) j rest rest' (next value rest) (next' value' rest')) :
    Alike s s' q n lexemes lexemes' (reading.andThen next) (reading'.andThen next') := by
  cases h with
  | ok hvalue hused hrest hcount hsplit hsplit' =>
    have hafter := hnext _ _ _ _ _ _ _ _ hvalue hused hrest hsplit hsplit'
    rw [← hcount, hsplit, hsplit']
    exact .after hused hafter
  | error expected found found' rest rest' => exact .error expected found found' rest rest'

theorem map {f f' : α → β} (h : Alike s s' r n lexemes lexemes' reading reading')
    (hf : ∀ i value value', r i value value' → q i (f value) (f' value')) :
    Alike s s' q n lexemes lexemes' (reading.map f) (reading'.map f') :=
  h.andThen fun i _ _ _ _ _ _ _ hvalue _ hrest _ _ => .stay (hf i _ _ hvalue) hrest

end Reading.Alike

open Reading (Alike)

/-- Behind a token that is no text the readers are where they would be without it. -/
theorem Reading.Alike.step {α : Type} {r : ℕ → α → α → Prop} {reading reading' : Reading α}
    {n : ℕ} {lexemes lexemes' : List Lexeme} {token : Token}
    (h : Rewords (Lexeme.Reworded s s') n lexemes lexemes')
    (hnext : nextToken lexemes = token) (hend : token ≠ .endOfLine)
    (htoken : ∀ value, token ≠ .text value)
    (hbehind : Rewords (Lexeme.Reworded s s') n lexemes.tail lexemes'.tail →
      Alike s s' r n lexemes.tail lexemes'.tail reading reading') :
    Alike s s' r n lexemes lexemes' reading reading' := by
  cases h with
  | nil => exact absurd hnext.symm hend
  | cons hhead htail =>
    cases hhead with
    | same =>
      rw [Nat.zero_add] at hbehind
      exact .same _ (hbehind htail)
    | quoted gap => exact absurd hnext.symm (htoken s)

/-! ## Columns, conditions and brackets -/

/-- No text is read behind the dots of a column. -/
theorem readDotted_alike {n : ℕ} {lexemes lexemes' : List Lexeme}
    (h : Rewords (Lexeme.Reworded s s') n lexemes lexemes') :
    Alike s s' Same n lexemes lexemes' (readDotted lexemes) (readDotted lexemes') := by
  rw [readDotted_eq, readDotted_eq lexemes']
  simp only [h.nextToken_eq_iff .dot (by simp)]
  split
  next hdot =>
    refine .step h hdot (by simp) (by simp) fun htail => ?_
    rcases htail.nextToken_cases with heq | ⟨htext, htext'⟩
    · rw [heq]
      split
      next name hname =>
        refine .step htail hname (by simp) (by simp) fun hmore => ?_
        exact (readDotted_alike hmore).map fun i names names' hnames =>
          ⟨hnames.1, congrArg (name :: ·) hnames.2⟩
      next => exact .unexpected _ _ _
    · rw [htext, htext']
      exact .unexpected _ _ _
  next => exact .stay ⟨rfl, rfl⟩ h
termination_by lexemes.length
decreasing_by
  have hdot := length_tail_lt ‹nextToken lexemes = .dot› (by decide)
  have hname := length_tail_lt ‹nextToken lexemes.tail = .name _› (by simp)
  omega

/-- Columns contain no texts, so they are the same. -/
theorem readColumn_alike {n : ℕ} {lexemes lexemes' : List Lexeme}
    (h : Rewords (Lexeme.Reworded s s') n lexemes lexemes') :
    Alike s s' Same n lexemes lexemes' (readColumn lexemes) (readColumn lexemes') := by
  rw [readColumn_eq, readColumn_eq lexemes']
  rcases h.nextToken_cases with heq | ⟨htext, htext'⟩
  · rw [heq]
    split
    next first hfirst =>
      refine .step h hfirst (by simp) (by simp) fun htail => ?_
      exact (readDotted_alike htail).map fun i names names' hnames =>
        ⟨hnames.1, congrArg (ColumnRef.ofPath first) hnames.2⟩
    next => exact .unexpected _ _ _
  · rw [htext, htext']
    exact .unexpected _ _ _

/-- Lists of columns contain no texts, so they are the same. -/
theorem readColumns_alike {n : ℕ} {lexemes lexemes' : List Lexeme}
    (h : Rewords (Lexeme.Reworded s s') n lexemes lexemes') :
    Alike s s' Same n lexemes lexemes' (readColumns lexemes) (readColumns lexemes') := by
  rw [readColumns_eq, readColumns_eq lexemes']
  refine (readColumn_alike h).andThen ?_
  rintro i j column _ used _ rest rest' ⟨rfl, rfl⟩ - hrest hsplit -
  simp only [Nat.zero_add, hrest.nextToken_eq_iff .comma (by simp)]
  split
  next hcomma =>
    refine .step hrest hcomma (by simp) (by simp) fun htail => ?_
    exact (readColumns_alike htail).map fun i columns columns' hcolumns =>
      ⟨hcolumns.1, congrArg (column :: ·) hcolumns.2⟩
  next => exact .stay ⟨rfl, rfl⟩ hrest
termination_by lexemes.length
decreasing_by
  have hlt := length_tail_lt ‹nextToken rest = .comma› (by decide)
  rw [hsplit, List.length_append]
  omega

/-- What is compared with may be the text. -/
theorem readComparand_alike {n : ℕ} {lexemes lexemes' : List Lexeme}
    (h : Rewords (Lexeme.Reworded s s') n lexemes lexemes') :
    Alike s s' (Operand.Reworded s s') n lexemes lexemes' (readComparand lexemes)
      (readComparand lexemes') := by
  cases h with
  | nil => exact .unexpected _ _ _
  | @cons i j lexeme _ more more' hhead htail =>
    cases hhead with
    | quoted gap => exact .ok .text (.cons (.quoted gap) .nil) htail rfl rfl rfl
    | same =>
      have hcolumn := readColumn_alike (Rewords.cons (.same lexeme) htail)
      obtain ⟨token, gap, text⟩ := lexeme
      cases token with
      | number value => exact .same _ (.stay (.same _) htail)
      | text value => exact .same _ (.stay (.same _) htail)
      | name name =>
        refine hcolumn.map ?_
        rintro i ref _ ⟨rfl, rfl⟩
        exact .same _
      | _ => exact .unexpected _ _ _

/-- What follows the column of a condition is read alike. -/
theorem readComparison_alike (column : ColumnRef) {n : ℕ} {lexemes lexemes' : List Lexeme}
    (h : Rewords (Lexeme.Reworded s s') n lexemes lexemes') :
    Alike s s' (Condition.Reworded s s') n lexemes lexemes' (readComparison column lexemes)
      (readComparison column lexemes') := by
  rw [readComparison_eq, readComparison_eq column lexemes']
  rcases h.nextToken_cases with heq | ⟨htext, htext'⟩
  · rw [heq]
    split
    next comparator hcomparator =>
      refine .step h hcomparator (by simp) (by simp) fun htail => ?_
      exact (readComparand_alike htail).map fun i operand operand' hoperand => ⟨rfl, rfl, hoperand⟩
    next => exact .unexpected _ _ _
  · rw [htext, htext']
    exact .unexpected _ _ _

theorem readCondition_alike {n : ℕ} {lexemes lexemes' : List Lexeme}
    (h : Rewords (Lexeme.Reworded s s') n lexemes lexemes') :
    Alike s s' (Condition.Reworded s s') n lexemes lexemes' (readCondition lexemes)
      (readCondition lexemes') := by
  refine (readColumn_alike h).andThen ?_
  rintro i j column _ _ _ rest rest' ⟨rfl, rfl⟩ - hrest - -
  simpa only [Nat.zero_add] using readComparison_alike column hrest

/-- The brackets yield the same query but for the texts in it, one of which may stand in them. -/
theorem readBody_alike {k n : ℕ} {base base' : Query} {lexemes lexemes' : List Lexeme}
    (hbase : Query.Reworded s s' k base base')
    (h : Rewords (Lexeme.Reworded s s') n lexemes lexemes') :
    Alike s s' (fun i => Query.Reworded s s' (k + i)) n lexemes lexemes' (readBody base lexemes)
      (readBody base' lexemes') := by
  unfold readBody
  rw [h.holdsCondition_eq]
  split
  · refine (readCondition_alike h).andThen ?_
    rintro i j ⟨column, comparator, operand⟩ ⟨_, _, operand'⟩ used used' rest rest'
      ⟨rfl, rfl, hoperand⟩ hused hrest hsplit hsplit'
    refine .stay ?_ hrest
    rw [hsplit, hsplit', textBetween_append, textBetween_append]
    cases hoperand with
    | same =>
      rw [hused.eq_of_zero]
      exact .select hbase _ _
    | text =>
      obtain ⟨front, gap, back, rfl, rfl⟩ := hused.exists_split
      obtain ⟨before, after, hwritten⟩ := Lexeme.exists_written_quoted front gap back
      rw [hwritten, hwritten]
      exact .literal hbase column comparator before after
  · refine (readColumns_alike h).andThen ?_
    rintro i j columns _ used used' rest rest' ⟨rfl, rfl⟩ hused hrest hsplit hsplit'
    refine .stay ?_ hrest
    rw [hsplit, hsplit', textBetween_append, textBetween_append, hused.eq_of_zero]
    exact .project hbase _ _

/-- Tokens are expected alike, if they are no texts. -/
theorem expect_alike {token : Token} (htoken : ∀ value, token ≠ .text value) {n : ℕ}
    {lexemes lexemes' : List Lexeme} (h : Rewords (Lexeme.Reworded s s') n lexemes lexemes') :
    Alike s s' Same n lexemes lexemes' (expect token lexemes) (expect token lexemes') := by
  unfold expect
  simp only [h.nextToken_eq_iff token htoken]
  split
  next hnext =>
    cases h with
    | nil => exact .stay ⟨rfl, rfl⟩ .nil
    | cons hhead htail =>
      cases hhead with
      | same => exact .same _ (.stay ⟨rfl, rfl⟩ htail)
      | quoted gap => exact absurd hnext.symm (htoken s)
  next => exact .unexpected _ _ _

/-- Brackets are read alike, and so are the texts that they are written with. -/
theorem readBracket_alike {k n : ℕ} {base base' : Query} {lexemes lexemes' : List Lexeme}
    (hbase : Query.Reworded s s' k base base')
    (h : Rewords (Lexeme.Reworded s s') n lexemes lexemes') :
    Alike s s' (fun i => Query.Reworded s s' (k + i)) n lexemes lexemes'
      (readBracket base lexemes) (readBracket base' lexemes') := by
  refine (readBody_alike hbase h).andThen ?_
  rintro i j query query' _ _ rest rest' hquery - hrest - -
  refine (expect_alike (by simp) hrest).map ?_
  rintro i' _ _ ⟨rfl, -⟩
  exact hquery

/-! ## Expressions -/

mutual

/-- `k` texts have been read so far, in the expression and the open parentheses. -/
theorem readFromOperand_alike {i j k n : ℕ} {level level' : Level} {outer outer' : List Level}
    {lexemes lexemes' : List Lexeme} (houter : Rewords (Level.Reworded s s') i outer outer')
    (hlevel : Level.Reworded s s' j level level') (hk : k = i + j)
    (h : Rewords (Lexeme.Reworded s s') n lexemes lexemes') :
    Alike s s' (fun m => Query.Reworded s s' (k + m)) n lexemes lexemes'
      (readFromOperand level outer lexemes) (readFromOperand level' outer' lexemes') := by
  rw [readFromOperand_eq, readFromOperand_eq level']
  rcases h.nextToken_cases with heq | ⟨htext, htext'⟩
  · rw [heq]
    split
    next name hname =>
      refine .step h hname (by simp) (by simp) fun htail => ?_
      exact readFromOperator_alike houter hlevel (.named name) (by omega) htail
    next hparen =>
      refine .step h hparen (by simp) (by simp) fun htail => ?_
      exact readFromOperand_alike (.cons hlevel houter) .start (by omega) htail
    next => exact .unexpected _ _ _
  · rw [htext, htext']
    exact .unexpected _ _ _
termination_by lexemes.length
decreasing_by
  · exact length_tail_lt ‹nextToken lexemes = .name _› (by simp)
  · exact length_tail_lt ‹nextToken lexemes = .openParen› (by simp)

/-- Whole queries are read alike, whatever levels are open around them. The induction goes along
with the reader of the first line. -/
theorem readFromOperator_alike {i j k l n : ℕ} {level level' : Level}
    {outer outer' : List Level} {query query' : Query} {lexemes lexemes' : List Lexeme}
    (houter : Rewords (Level.Reworded s s') i outer outer')
    (hlevel : Level.Reworded s s' j level level') (hquery : Query.Reworded s s' l query query')
    (hk : k = i + j + l) (h : Rewords (Lexeme.Reworded s s') n lexemes lexemes') :
    Alike s s' (fun m => Query.Reworded s s' (k + m)) n lexemes lexemes'
      (readFromOperator level outer query lexemes)
      (readFromOperator level' outer' query' lexemes') := by
  rw [readFromOperator_eq, readFromOperator_eq level']
  have htotal := hlevel.total hquery
  -- Outside of all parentheses the expression is at its end where no operator comes next.
  have hend : i = 0 → Alike s s' (fun m => Query.Reworded s s' (k + m)) n lexemes lexemes'
      (.ok (level.total query), lexemes) (.ok (level'.total query'), lexemes') := by
    rintro rfl
    refine .stay ?_ h
    rw [hk, Nat.zero_add]
    exact htotal
  rcases h.nextToken_cases with heq | ⟨htext, htext'⟩
  · rw [heq]
    split
    next hbracket =>
      refine .step h hbracket (by simp) (by simp) fun htail => ?_
      refine (readBracket_alike hquery htail).andThen ?_
      intro m _ restricted restricted' used _ rest rest' hrestricted _ hrest hsplit _
      simp only [← Nat.add_assoc]
      exact readFromOperator_alike houter hlevel hrestricted (by omega) hrest
    next htimes =>
      refine .step h htimes (by simp) (by simp) fun htail => ?_
      exact readFromOperand_alike houter (hlevel.afterTimes hquery) (by omega) htail
    next operator hoperator =>
      refine .step h hoperator (by simp) (by simp) fun htail => ?_
      exact readFromOperand_alike houter (hlevel.afterOperator hquery operator) (by omega) htail
    next =>
      cases houter with
      | nil => exact hend rfl
      | cons henclosing hmore =>
        dsimp only
        split
        next hclose =>
          refine .step h hclose (by simp) (by simp) fun htail => ?_
          exact readFromOperator_alike hmore henclosing htotal (by omega) htail
        next => exact .unexpected _ _ _
  · rw [htext, htext']
    cases houter with
    | nil => exact hend rfl
    | cons henclosing hmore => exact .unexpected _ _ _
termination_by lexemes.length
decreasing_by
  · have hle : rest.length ≤ lexemes.tail.length := by rw [hsplit, List.length_append]; omega
    exact Nat.lt_of_le_of_lt hle (length_tail_lt ‹nextToken lexemes = .openBracket› (by decide))
  · exact length_tail_lt ‹nextToken lexemes = .times› (by decide)
  · exact length_tail_lt ‹nextToken lexemes = .setOperator _› (by simp)
  · exact length_tail_lt ‹nextToken lexemes = .closeParen› (by decide)

end

/-! ## Statements -/

theorem readQuery_alike {n : ℕ} {lexemes lexemes' : List Lexeme}
    (h : Rewords (Lexeme.Reworded s s') n lexemes lexemes') :
    Alike s s' (Query.Reworded s s') n lexemes lexemes' (readQuery lexemes)
      (readQuery lexemes') := by
  have hread := readFromOperand_alike .nil .start rfl h
  simp only [Nat.zero_add] at hread
  exact hread

/-- The target contains no text, so it is the same. -/
theorem readTarget_alike {k n : ℕ} {query query' : Query} {lexemes lexemes' : List Lexeme}
    (hquery : Query.Reworded s s' k query query')
    (h : Rewords (Lexeme.Reworded s s') n lexemes lexemes') :
    Alike s s' (fun i => Statement.Reworded s s' (k + i)) n lexemes lexemes'
      (readTarget query lexemes) (readTarget query' lexemes') := by
  rw [readTarget_eq, readTarget_eq query']
  simp only [h.nextToken_eq_iff .arrow (by simp)]
  split
  next harrow =>
    refine .step h harrow (by simp) (by simp) fun htail => ?_
    rcases htail.nextToken_cases with heq | ⟨htext, htext'⟩
    · rw [heq]
      split
      next target htarget =>
        refine .step htail htarget (by simp) (by simp) fun hmore => ?_
        refine (expect_alike (by simp) hmore).map ?_
        rintro i _ _ ⟨rfl, -⟩
        exact ⟨hquery, rfl⟩
      next => exact .unexpected _ _ _
    · rw [htext, htext']
      exact .unexpected _ _ _
  next => exact .unexpected _ _ _

/-- **Reading does not look into texts.**  Lines that are the same but for so many texts read as
statements that are the same but for as many texts, or fail where the same was expected. -/
theorem readStatement_alike {n : ℕ} {lexemes lexemes' : List Lexeme}
    (h : Rewords (Lexeme.Reworded s s') n lexemes lexemes') :
    Alike s s' (Statement.Reworded s s') n lexemes lexemes' (readStatement lexemes)
      (readStatement lexemes') :=
  (readQuery_alike h).andThen fun _ _ _ _ _ _ _ _ hquery _ hrest _ _ =>
    readTarget_alike hquery hrest

end RelationScript
