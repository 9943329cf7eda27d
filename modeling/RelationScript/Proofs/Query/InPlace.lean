/-
# Reading in place is reading

What is read on a tape is what the readers of lexemes make of the lexemes left, with the same outcome
and the same lexemes left afterwards.

* `Tape.At` : the lexemes left on a tape;
* `OnTape.Follows` : an action on a tape does what a reader does with the lexemes left;
* `OnTape.follows_expression` : the descent through an expression follows the reader of queries.
-/
import RelationScript.Proofs.Query.Tokens
import RelationScript.Proofs.Token.Runs
import RelationScript.Query.Tape

namespace RelationScript

/-! ## Tapes and lexemes -/

/-- The lexemes `all` are on the tape, behind the characters `before` of its line, and of them `rest`
is left to be read. -/
structure Tape.At (before : List Char) (all : List Lexeme) (tape : Tape) (rest : List Lexeme) :
    Prop where
  line : tape.line = before ++ Lexeme.source all
  spans : tape.spans = (Lexeme.spanned before.length all).map Prod.snd
  length : tape.tokens.length = all.length
  head_le : tape.head ≤ all.length
  left : all.drop tape.head = rest
  /-- Nothing that is left has been overwritten. -/
  tokens : tape.tokens.drop tape.head = rest.map Lexeme.token

namespace Tape.At

variable {before : List Char} {all rest : List Lexeme} {tape : Tape}

theorem current_eq (h : tape.At before all rest) : tape.current = nextToken rest := by
  have hhead : tape.tokens[tape.head]? = (rest.map Lexeme.token).head? := by
    rw [← h.tokens, List.head?_drop]
  rw [current, hhead]
  cases rest <;> rfl

/-- The head moves over one lexeme, and stays at the end. -/
theorem advance (h : tape.At before all rest) :
    tape.advance.At before all rest.tail ∧ tape.head ≤ tape.advance.head := by
  rw [Tape.advance]
  split
  next hlt =>
    refine ⟨⟨h.line, h.spans, h.length, ?_, ?_, ?_⟩, Nat.le_succ _⟩
    · rw [← h.length]
      exact hlt
    · rw [← h.left, List.tail_drop]
    · rw [List.map_tail, ← h.tokens, List.tail_drop]
  next hend =>
    have hnil : rest = [] := by
      rw [← h.left]
      exact List.drop_eq_nil_of_le (by rw [← h.length]; omega)
    subst hnil
    exact ⟨h, le_refl _⟩

/-- Nothing that is left behind a token is overwritten with it. -/
theorem take (h : tape.At before all rest) :
    tape.erase.advance.At before all rest.tail ∧ tape.head ≤ tape.erase.advance.head := by
  obtain ⟨hadvance, hle⟩ := h.advance
  by_cases hlt : tape.head < tape.tokens.length
  · have hhead : tape.advance.head = tape.head + 1 := by rw [Tape.advance, if_pos hlt]
    have herase : tape.erase.advance =
        { tape.advance with tokens := tape.tokens.set tape.head .endOfLine } := by
      rw [Tape.advance, Tape.advance, if_pos hlt, if_pos (by simpa [erase] using hlt)]
      rfl
    rw [herase]
    refine ⟨⟨hadvance.line, hadvance.spans, ?_, hadvance.head_le, hadvance.left, ?_⟩, hle⟩
    · rw [List.length_set, h.length]
    · rw [← hadvance.tokens]
      dsimp only
      rw [hhead, List.drop_set_of_lt (Nat.lt_succ_self _), Tape.advance, if_pos hlt]
  · have herase : tape.erase = tape := by
      rw [erase, List.set_eq_of_length_le (not_lt.mp hlt)]
    rw [herase]
    exact ⟨hadvance, hle⟩

/-- Looking ahead on the tape finds what looking ahead in the lexemes finds. -/
theorem holdsCondition?_eq (h : tape.At before all rest) :
    tape.holdsCondition? = some (holdsCondition rest) := by
  have hle : tape.head ≤ tape.tokens.length := by
    rw [h.length]
    exact h.head_le
  rw [holdsCondition?, if_pos hle, h.tokens, List.takeWhile_map, List.any_map]
  rfl

end Tape.At

/-! ## Texts of brackets -/

/-- The span of a lexeme begins behind what precedes it and its gap, and is as long as its text. -/
theorem getElem?_spanned (offset : ℕ) (front back : List Lexeme) (lexeme : Lexeme) :
    ((Lexeme.spanned offset (front ++ lexeme :: back)).map Prod.snd)[front.length]? =
      some ⟨offset + (Lexeme.source front).length + lexeme.gap.length,
        offset + (Lexeme.source front).length + lexeme.gap.length + lexeme.text.length⟩ := by
  have hlength : ((Lexeme.spanned offset front).map Prod.snd).length = front.length := by
    rw [List.length_map, ← List.length_map Prod.fst, map_fst_spanned, List.length_map]
  rw [spanned_append, List.map_append, List.getElem?_append_right hlength.le, hlength, Nat.sub_self]
  rfl

/-- The text since a token is what is written of the lexemes from it on. -/
theorem Tape.textSince?_eq {tape : Tape} {before : List Char} {front used rest : List Lexeme}
    (hline : tape.line = before ++ Lexeme.source (front ++ (used ++ rest)))
    (hspans : tape.spans = (Lexeme.spanned before.length (front ++ (used ++ rest))).map Prod.snd)
    (hhead : tape.head = front.length + used.length) :
    tape.textSince? front.length = some (String.ofList (Lexeme.written used)) := by
  by_cases hnil : used = []
  · subst hnil
    have hnone : ¬ front.length < tape.head := by simp [hhead]
    rw [textSince?, if_neg hnone]
    rfl
  · obtain ⟨first, more, hfirst⟩ := List.exists_cons_of_ne_nil hnil
    obtain ⟨init, last, hlast⟩ : ∃ init last, used = init ++ [last] :=
      ⟨_, _, (List.dropLast_concat_getLast hnil).symm⟩
    have hlength : used.length = init.length + 1 := by simp [hlast]
    have hstart := getElem?_spanned before.length front (more ++ rest) first
    rw [← List.cons_append, ← hfirst, ← hspans] at hstart
    have hstop := getElem?_spanned before.length (front ++ init) rest last
    have hall : front ++ init ++ last :: rest = front ++ (used ++ rest) := by simp [hlast]
    have hindex : (front ++ init).length = tape.head - 1 := by
      rw [List.length_append]
      omega
    rw [hall, ← hspans, hindex] at hstop
    have hsource : Lexeme.source used = first.gap ++ Lexeme.written used := by
      rw [hfirst, Lexeme.source_cons]
      rfl
    -- The last span stops where the lexemes that are used up do.
    have hend : before.length + (Lexeme.source (front ++ init)).length + last.gap.length +
        last.text.length =
          before.length + (Lexeme.source front).length + first.gap.length +
            (Lexeme.written used).length := by
      have hsame := congrArg List.length hsource
      rw [hlast, Lexeme.source_append] at hsame
      simp only [Lexeme.source_append, Lexeme.source_cons, Lexeme.source_nil, List.length_append,
        List.append_nil, ← hlast] at hsame ⊢
      omega
    have hcut : tape.line = (before ++ Lexeme.source front ++ first.gap) ++
        (Lexeme.written used ++ Lexeme.source rest) := by
      rw [hline, Lexeme.source_append, Lexeme.source_append, hsource]
      simp
    have hfront : before.length + (Lexeme.source front).length + first.gap.length =
        (before ++ Lexeme.source front ++ first.gap).length := by simp [Nat.add_assoc]
    rw [textSince?, if_pos (by omega), hstart, hstop]
    dsimp only [Option.bind_some]
    rw [hend, hfront, hcut, Span.text_append, if_pos]
    simp [Nat.add_assoc]

/-- What has been written since some place is cut out of the line by the spans of two lexemes. -/
theorem Tape.At.textSince?_eq {before : List Char} {all lexemes rest : List Lexeme} {tape : Tape}
    {start : ℕ} (h : tape.At before all rest) (hstart : start ≤ all.length)
    (hlexemes : all.drop start = lexemes) (hle : rest.length ≤ lexemes.length) :
    tape.textSince? start = some (textBetween lexemes rest) := by
  have hlength := congrArg List.length hlexemes
  have hlength' := congrArg List.length h.left
  rw [List.length_drop] at hlength hlength'
  have hhead := h.head_le
  obtain ⟨used, hused⟩ : ∃ used, lexemes = used ++ rest := by
    refine ⟨lexemes.take (tape.head - start), ?_⟩
    have hrest : rest = lexemes.drop (tape.head - start) := by
      rw [← h.left, ← hlexemes, List.drop_drop, show start + (tape.head - start) = tape.head by omega]
    rw [hrest, List.take_append_drop]
  have hall : all = all.take start ++ (used ++ rest) := by
    rw [← hused, ← hlexemes, List.take_append_drop]
  have htake : (all.take start).length = start := List.length_take_of_le hstart
  have husedLength : lexemes.length = used.length + rest.length := by rw [hused, List.length_append]
  have htext := @Tape.textSince?_eq tape before (all.take start) used rest (by rw [← hall, h.line])
    (by rw [← hall, h.spans]) (by omega)
  rw [htake] at htext
  rw [htext, hused, textBetween_append]

/-! ## Readings one after the other -/

theorem Reading.map_andThen {α β γ : Type} (f : β → γ) (reading : Reading α)
    (next : α → List Lexeme → Reading β) :
    (reading.andThen next).map f = reading.andThen fun value rest => (next value rest).map f := by
  rcases reading with ⟨_ | _, _⟩ <;> rfl

theorem Reading.map_map {α β γ : Type} (f : β → γ) (g : α → β) (reading : Reading α) :
    (reading.map g).map f = reading.map fun value => f (g value) := by
  rcases reading with ⟨_ | _, _⟩ <;> rfl

theorem Reading.map_id {α : Type} (reading : Reading α) :
    (reading.map fun value => value) = reading := by
  rcases reading with ⟨_ | _, _⟩ <;> rfl

theorem Reading.andThen_assoc {α β γ : Type} (reading : Reading α)
    (next : α → List Lexeme → Reading β) (last : β → List Lexeme → Reading γ) :
    (reading.andThen next).andThen last =
      reading.andThen fun value rest => (next value rest).andThen last := by
  rcases reading with ⟨_ | _, _⟩ <;> rfl

namespace OnTape

/-! ## Actions and readings -/

variable {before : List Char} {all rest : List Lexeme} {α β : Type}

/-- With the lexemes `rest` left on the tape, the action does what the reading says: it comes to an
end, has this outcome, leaves these lexemes and does not go back.  A fault is about the token at which
it stops. -/
def Follows (before : List Char) (all : List Lexeme) (action : OnTape α) (rest : List Lexeme)
    (reading : Reading α) : Prop :=
  ∀ tape : Tape, tape.At before all rest → ∃ after : Tape,
    action.run tape = some (reading.1.mapError Halt.fault, after) ∧
      after.At before all reading.2 ∧ tape.head ≤ after.head ∧
        ∀ fault, reading.1 = .error fault → fault.found = after.current

/-- A later action is run where the earlier one leaves the tape, unless that halts. -/
theorem run_bind (action : OnTape α) (next : α → OnTape β) (tape : Tape) :
    (action >>= next).run tape = (action.run tape).bind fun done =>
      match done.1 with
      | .ok value => (next value).run done.2
      | .error halt => some (.error halt, done.2) := by
  show Option.bind (action.run tape) _ = _
  congr 1
  funext ⟨outcome, after⟩
  cases outcome <;> rfl

theorem Follows.pure (value : α) : Follows before all (pure value) rest (.ok value, rest) :=
  fun tape h => ⟨tape, rfl, h, le_refl _, fun _ => nofun⟩

/-- What ends in a fault is not gone on with. -/
theorem Follows.bind_error {action : OnTape α} {next : α → OnTape β} {fault : Unexpected}
    {more : List Lexeme} (h : Follows before all action rest (.error fault, more)) :
    Follows before all (action >>= next) rest (.error fault, more) := by
  intro tape hat
  obtain ⟨after, hrun, hafter, hle, hfound⟩ := h tape hat
  refine ⟨after, ?_, hafter, hle, ?_⟩
  · rw [run_bind, hrun]
    rfl
  · rintro cause ⟨⟩
    exact hfound fault rfl

/-- What succeeds is gone on with at the lexemes left. -/
theorem Follows.bind_ok {action : OnTape α} {next : α → OnTape β} {value : α} {more : List Lexeme}
    {reading : Reading β} (h : Follows before all action rest (.ok value, more))
    (hnext : Follows before all (next value) more reading) :
    Follows before all (action >>= next) rest reading := by
  intro tape hat
  obtain ⟨halfway, hrun, hhalfway, hle, -⟩ := h tape hat
  obtain ⟨after, hrun', hafter, hle', hfound⟩ := hnext halfway hhalfway
  refine ⟨after, ?_, hafter, hle.trans hle', hfound⟩
  rw [run_bind, hrun]
  exact hrun'

/-- One action after the other does what one reading after the other says. -/
theorem Follows.bind {action : OnTape α} {next : α → OnTape β} {reading : Reading α}
    {onward : α → List Lexeme → Reading β} (h : Follows before all action rest reading)
    (hnext : ∀ value more, reading = (.ok value, more) →
      Follows before all (next value) more (onward value more)) :
    Follows before all (action >>= next) rest (reading.andThen onward) := by
  rcases reading with ⟨fault | value, more⟩
  · exact h.bind_error
  · exact h.bind_ok (hnext value more rfl)

theorem Follows.map {action : OnTape α} {reading : Reading α}
    (h : Follows before all action rest reading) (f : α → β) :
    Follows before all (action >>= fun value => Pure.pure (f value)) rest (reading.map f) :=
  h.bind fun value _ _ => .pure (f value)

/-! ## Single tokens -/

/-- A look at the token at the place. -/
theorem Follows.current {next : Token → OnTape α} {reading : Reading α}
    (h : Follows before all (next (nextToken rest)) rest reading) :
    Follows before all (current >>= next) rest reading := by
  intro tape hat
  show ∃ after, (next tape.current).run tape = _ ∧ _
  rw [hat.current_eq]
  exact h tape hat

/-- Moving over a lexeme leaves the lexemes behind it. -/
theorem Follows.advance {next : Unit → OnTape α} {reading : Reading α}
    (h : Follows before all (next ()) rest.tail reading) :
    Follows before all (advance >>= next) rest reading := by
  intro tape hat
  obtain ⟨hadvance, hle⟩ := hat.advance
  obtain ⟨after, hrun, hafter, hle', hfound⟩ := h tape.advance hadvance
  exact ⟨after, hrun, hafter, hle.trans hle', hfound⟩

/-- Taking a lexeme also hands over its token. -/
theorem Follows.take {next : Token → OnTape α} {reading : Reading α}
    (h : Follows before all (next (nextToken rest)) rest.tail reading) :
    Follows before all (take >>= next) rest reading := by
  intro tape hat
  obtain ⟨htake, hle⟩ := hat.take
  obtain ⟨after, hrun, hafter, hle', hfound⟩ := h tape.erase.advance htake
  refine ⟨after, ?_, hafter, hle.trans hle', hfound⟩
  show (next tape.current).run tape.erase.advance = _
  rw [hat.current_eq, hrun]

/-- What is looked for is found. -/
theorem Follows.look {answer? : Tape → Option α} {answer : α} {next : α → OnTape β}
    {reading : Reading β} (hanswer : ∀ tape : Tape, tape.At before all rest → answer? tape = some answer)
    (h : Follows before all (next answer) rest reading) :
    Follows before all (OnTape.look answer? >>= next) rest reading := by
  intro tape hat
  obtain ⟨after, hrun, hafter⟩ := h tape hat
  refine ⟨after, ?_, hafter⟩
  have hlook : (OnTape.look answer?).run tape = some (.ok answer, tape) := by
    have hget : (get : OnTape Tape).run tape = some (.ok tape, tape) := rfl
    rw [OnTape.look, run_bind, hget, Option.bind_some]
    dsimp only
    rw [hanswer tape hat]
    rfl
  rw [run_bind, hlook]
  exact hrun

theorem follows_unexpected (expected : Expectation) :
    Follows before all (unexpected expected : OnTape α) rest
      (RelationScript.unexpected expected rest) := by
  refine Follows.current fun tape hat => ⟨tape, rfl, hat, le_refl _, ?_⟩
  rintro fault ⟨⟩
  exact hat.current_eq.symm

/-- A token is expected in the same way on the tape. -/
theorem follows_expect (token : Token) :
    Follows before all (expect token) rest (RelationScript.expect token rest) := by
  refine Follows.current ?_
  unfold RelationScript.expect
  split
  · intro tape hat
    obtain ⟨hadvance, hle⟩ := hat.advance
    exact ⟨tape.advance, rfl, hadvance, hle, fun _ => nofun⟩
  · exact follows_unexpected _

/-- A name, if it comes next. -/
def readName (expected : Expectation) (lexemes : List Lexeme) : Reading String :=
  match nextToken lexemes with
  | .name name => (.ok name, lexemes.tail)
  | _ => RelationScript.unexpected expected lexemes

/-- What is taken for a name is one. -/
theorem follows_name (expected : Expectation) :
    Follows before all (name expected) rest (readName expected rest) := by
  refine Follows.current ?_
  unfold readName
  cases hnext : nextToken rest with
  | name n =>
    refine Follows.take ?_
    rw [hnext]
    exact .pure n
  | _ => exact follows_unexpected _

/-- A name that is read is the next token, and it is used up. -/
theorem readName_eq_ok {expected : Expectation} {lexemes more : List Lexeme} {name : String}
    (h : readName expected lexemes = (.ok name, more)) :
    nextToken lexemes = .name name ∧ more = lexemes.tail := by
  unfold readName at h
  cases hnext : nextToken lexemes with
  | name other =>
    rw [hnext] at h
    cases h
    exact ⟨rfl, rfl⟩
  | _ =>
    rw [hnext] at h
    cases h

/-! ## Inside brackets -/

/-- Behind a dot of a column a name is read, as it is on the tape. -/
theorem readDotted_eq_readName (lexemes : List Lexeme) :
    readDotted lexemes =
      if nextToken lexemes = .dot then
        (readName .columnNameAfterDot lexemes.tail).andThen fun name rest =>
          (readDotted rest).map (name :: ·)
      else (.ok [], lexemes) := by
  rw [readDotted_eq]
  split
  · unfold readName
    cases nextToken lexemes.tail <;> rfl
  · rfl

/-- A column is a name and the names behind its dots, as it is on the tape. -/
theorem readColumn_eq_readName (lexemes : List Lexeme) :
    readColumn lexemes =
      (readName .columnName lexemes).andThen fun first rest =>
        (readDotted rest).map (.ofPath first) := by
  rw [readColumn_eq]
  unfold readName
  cases nextToken lexemes <;> rfl

/-- Names that have been read are handed along, in their order. The induction is on the steps left.
-/
theorem follows_dotted {steps : ℕ} (names : List String) (h : rest.length < steps) :
    Follows before all (dotted steps names) rest ((readDotted rest).map (names ++ ·)) := by
  induction steps generalizing names rest with
  | zero => omega
  | succ steps ih =>
    rw [dotted, readDotted_eq_readName]
    refine Follows.current ?_
    split
    next hdot =>
      have hlt := length_tail_lt hdot (by decide)
      refine Follows.advance ?_
      rw [Reading.map_andThen]
      refine (follows_name _).bind fun name more hname => ?_
      obtain ⟨-, rfl⟩ := readName_eq_ok hname
      have hmore : rest.tail.tail.length < steps := by
        rw [List.length_tail]
        omega
      have hpath : (fun more => names ++ name :: more) = (names ++ [name] ++ ·) := by
        funext more
        simp
      rw [Reading.map_map, hpath]
      exact ih (names ++ [name]) hmore
    next =>
      show Follows before all (Pure.pure names) rest (.ok (names ++ []), rest)
      rw [List.append_nil]
      exact .pure names

/-- A column is read in place. -/
theorem follows_column {steps : ℕ} (h : rest.length < steps) :
    Follows before all (column steps) rest (readColumn rest) := by
  rw [column, readColumn_eq_readName]
  refine (follows_name _).bind fun first more hname => ?_
  obtain ⟨-, rfl⟩ := readName_eq_ok hname
  have hmore : rest.tail.length < steps := by
    rw [List.length_tail]
    omega
  have hdotted : Follows before all (dotted steps []) rest.tail (readDotted rest.tail) := by
    rw [← Reading.map_id (readDotted rest.tail)]
    exact follows_dotted [] hmore
  exact hdotted.map _

/-- Columns that have been read are handed along, in their order. -/
theorem follows_listed {steps : ℕ} (columns : List ColumnRef) (h : rest.length < steps) :
    Follows before all (listed steps columns) rest
      (if nextToken rest = .comma then (readColumns rest.tail).map (columns ++ ·)
        else (.ok columns, rest)) := by
  induction steps generalizing columns rest with
  | zero => omega
  | succ steps ih =>
    rw [listed]
    refine Follows.current ?_
    split
    next hcomma =>
      have hlt := length_tail_lt hcomma (by decide)
      refine Follows.advance ?_
      rw [readColumns_eq, Reading.map_andThen]
      refine (follows_column (by omega)).bind fun column more hcolumn => ?_
      have hle := (readColumn_suffix rest.tail).length_le
      rw [hcolumn] at hle
      dsimp only at hle
      have hmore := ih (columns ++ [column]) (show more.length < steps by omega)
      have hlist : (fun more => columns ++ column :: more) = (columns ++ [column] ++ ·) := by
        funext more
        simp
      split
      next hagain =>
        rw [Reading.map_map, hlist]
        rwa [if_pos hagain] at hmore
      next hend => rwa [if_neg hend] at hmore
    next => exact .pure columns

/-- A list of columns is read in place. -/
theorem follows_columns {steps : ℕ} (h : rest.length < steps) :
    Follows before all (columns steps) rest (readColumns rest) := by
  rw [columns, readColumns_eq]
  refine (follows_column h).bind fun column more hcolumn => ?_
  have hle := (readColumn_suffix rest).length_le
  rw [hcolumn] at hle
  exact follows_listed [column] (lt_of_le_of_lt hle h)

/-- What is compared with is read in place. -/
theorem follows_comparand {steps : ℕ} (h : rest.length < steps) :
    Follows before all (comparand steps) rest (readComparand rest) := by
  rw [comparand, readComparand_eq]
  refine Follows.current ?_
  cases hnext : nextToken rest with
  | name name => exact (follows_column h).map _
  | number value =>
    refine Follows.take ?_
    rw [hnext]
    exact .pure _
  | text value =>
    refine Follows.take ?_
    rw [hnext]
    exact .pure _
  | _ => exact follows_unexpected _

/-- A condition is read in place. -/
theorem follows_condition {steps : ℕ} (h : rest.length < steps) :
    Follows before all (condition steps) rest (readCondition rest) := by
  rw [condition, readCondition]
  refine (follows_column h).bind fun column more hcolumn => ?_
  have hle := (readColumn_suffix rest).length_le
  rw [hcolumn] at hle
  dsimp only at hle
  rw [readComparison_eq]
  refine Follows.current ?_
  cases hnext : nextToken more with
  | comparator comparator =>
    refine Follows.advance ?_
    have hmore : more.tail.length < steps := by
      rw [List.length_tail]
      omega
    exact (follows_comparand hmore).map _
  | _ => exact follows_unexpected _

/-- The text since the place where brackets begin, once they have been read. -/
theorem follows_text {start : ℕ} {lexemes : List Lexeme} {next : String → OnTape α}
    {reading : Reading α} (hstart : start ≤ all.length) (hlexemes : all.drop start = lexemes)
    (hle : rest.length ≤ lexemes.length)
    (h : Follows before all (next (textBetween lexemes rest)) rest reading) :
    Follows before all ((OnTape.look fun tape => tape.textSince? start) >>= next) rest reading :=
  Follows.look (fun _ hat => hat.textSince?_eq hstart hlexemes hle) h

/-- The body of brackets is read in place, be it a condition or a list of columns. -/
theorem follows_body {steps : ℕ} (base : Query) (h : rest.length < steps) :
    Follows before all (body steps base) rest (readBody base rest) := by
  intro tape hat
  -- The place where the brackets begin is kept while they are read.
  obtain ⟨start, hhead⟩ : ∃ start, tape.head = start := ⟨_, rfl⟩
  have hstart := hat.head_le
  have hlexemes := hat.left
  rw [hhead] at hstart hlexemes
  have hbody : Follows before all (do
      if ← look Tape.holdsCondition? then
        let condition ← condition steps
        let text ← look fun tape => tape.textSince? start
        return .select base condition text
      else
        let columns ← columns steps
        let text ← look fun tape => tape.textSince? start
        return .project base columns text) rest (readBody base rest) := by
    refine Follows.look (fun _ hat => hat.holdsCondition?_eq) ?_
    unfold readBody
    split
    · refine (follows_condition h).bind fun condition more hcondition => ?_
      have hsuffix := readCondition_suffix rest
      rw [hcondition] at hsuffix
      exact follows_text hstart hlexemes hsuffix.length_le (.pure _)
    · refine (follows_columns h).bind fun columns more hcolumns => ?_
      have hsuffix := readColumns_suffix rest
      rw [hcolumns] at hsuffix
      exact follows_text hstart hlexemes hsuffix.length_le (.pure _)
  obtain ⟨after, hrun, hafter⟩ := hbody tape hat
  refine ⟨after, ?_, hafter⟩
  rw [← hrun, ← hhead]
  rfl

/-! ## Parts of expressions -/

/-- With the lexemes `rest` left, the action reads the first part of what the reading is about, behind
which the reader goes on with `onward` and the next token is one of `ends`. -/
def Begins (before : List Char) (all : List Lexeme) (action : OnTape Query) (rest : List Lexeme)
    (reading : Reading Query) (onward : Query → List Lexeme → Reading Query) (ends : Token → Prop) :
    Prop :=
  ∃ part : Reading Query, Follows before all action rest part ∧ reading = part.andThen onward ∧
    ∀ query more, part = (.ok query, more) → more.length ≤ rest.length ∧ ends (nextToken more)

variable {reading : Reading Query} {onward onward' : Query → List Lexeme → Reading Query}
  {ends ends' : Token → Prop}

/-- What is read in two parts takes up the value and the lexemes of the first part in the second. -/
theorem Begins.bind {action : OnTape Query} {next : Query → OnTape Query}
    (h : Begins before all action rest reading onward ends)
    (hnext : ∀ query more, more.length ≤ rest.length → ends (nextToken more) →
      Begins before all (next query) more (onward query more) onward' ends') :
    Begins before all (action >>= next) rest reading onward' ends' := by
  obtain ⟨⟨outcome, more⟩, hfollows, rfl, hends⟩ := h
  cases outcome with
  | error fault => exact ⟨(.error fault, more), hfollows.bind_error, rfl, fun _ _ => nofun⟩
  | ok query =>
    obtain ⟨hle, hend⟩ := hends query more rfl
    obtain ⟨part, hpart, hreading, hends'⟩ := hnext query more hle hend
    refine ⟨part, hfollows.bind_ok hpart, hreading, fun query' more' h => ?_⟩
    obtain ⟨hle', hend'⟩ := hends' query' more' h
    exact ⟨hle'.trans hle, hend'⟩

/-- The part is all that the action reads. -/
theorem Follows.begins {action : OnTape Query} {part : Reading Query}
    (h : Follows before all action rest part) (hle : part.2.length ≤ rest.length) :
    Begins before all action rest (part.andThen onward) onward fun _ => True := by
  refine ⟨part, h, rfl, ?_⟩
  rintro query more rfl
  exact ⟨hle, trivial⟩

/-- The part is read to its end. -/
theorem Begins.pure {query : Query} (h : reading = onward query rest) (hend : ends (nextToken rest)) :
    Begins before all (Pure.pure query) rest reading onward ends := by
  refine ⟨(.ok query, rest), .pure query, h, ?_⟩
  rintro _ _ ⟨⟩
  exact ⟨le_refl _, hend⟩

theorem Begins.current {next : Token → OnTape Query}
    (h : Begins before all (next (nextToken rest)) rest reading onward ends) :
    Begins before all (OnTape.current >>= next) rest reading onward ends := by
  obtain ⟨part, hfollows, hreading, hends⟩ := h
  exact ⟨part, .current hfollows, hreading, hends⟩

theorem Begins.advance {next : Unit → OnTape Query}
    (h : Begins before all (next ()) rest.tail reading onward ends) :
    Begins before all (OnTape.advance >>= next) rest reading onward ends := by
  obtain ⟨part, hfollows, hreading, hends⟩ := h
  refine ⟨part, .advance hfollows, hreading, fun query more h => ?_⟩
  obtain ⟨hle, hend⟩ := hends query more h
  exact ⟨hle.trans (List.tail_suffix rest).length_le, hend⟩

/-- A token that is expected is used up, or the part ends in the fault. -/
theorem Begins.expect {token : Token} {next : Unit → OnTape Query}
    {behind : List Lexeme → Reading Query}
    (h : nextToken rest = token →
      Begins before all (next ()) rest.tail (behind rest.tail) onward ends) :
    Begins before all (OnTape.expect token >>= next) rest
      ((RelationScript.expect token rest).andThen fun _ more => behind more) onward ends := by
  have hexpect := @follows_expect before all rest token
  by_cases htoken : nextToken rest = token
  · have hok : RelationScript.expect token rest = (.ok (), rest.tail) := if_pos htoken
    rw [hok] at hexpect ⊢
    obtain ⟨part, hpart, hreading, hends⟩ := h htoken
    refine ⟨part, hexpect.bind_ok hpart, hreading, fun query more hmore => ?_⟩
    obtain ⟨hle, hend⟩ := hends query more hmore
    exact ⟨hle.trans (List.tail_suffix rest).length_le, hend⟩
  · have herror : RelationScript.expect token rest = (.error ⟨.token token, nextToken rest⟩, rest) :=
      if_neg htoken
    rw [herror] at hexpect ⊢
    exact ⟨_, hexpect.bind_error, rfl, fun _ _ => nofun⟩

/-- What comes behind an expression: the parenthesis that closes, if there is one to close. -/
def close : List Level → Query → List Lexeme → Reading Query
  | [], query, rest => (.ok query, rest)
  | level :: outer, query, rest =>
    (RelationScript.expect .closeParen rest).andThen fun _ more =>
      readFromOperator level outer query more

/-- Where no factor follows, what has been read of a term is its only factor. -/
theorem readFromOperator_term (level : Level) (outer : List Level) (query : Query)
    (hopen : nextToken rest ≠ .openBracket) (htimes : nextToken rest ≠ .times) :
    readFromOperator level outer query rest =
      readFromOperator ⟨level.terms, none⟩ outer (level.term query) rest := by
  rw [readFromOperator_eq, readFromOperator_eq ⟨level.terms, none⟩]
  cases hnext : nextToken rest with
  | openBracket => exact absurd hnext hopen
  | times => exact absurd hnext htimes
  | _ => rfl

/-- Where no term follows either, the expression is at its end. -/
theorem readFromOperator_total (level : Level) (outer : List Level) (query : Query)
    (hopen : nextToken rest ≠ .openBracket) (htimes : nextToken rest ≠ .times)
    (hoperator : ∀ operator, nextToken rest ≠ .setOperator operator) :
    readFromOperator level outer query rest = close outer (level.total query) rest := by
  rw [readFromOperator_eq]
  split
  next hnext => exact absurd hnext hopen
  next hnext => exact absurd hnext htimes
  next operator hnext => exact absurd hnext (hoperator operator)
  next =>
    cases outer with
    | nil => rfl
    | cons enclosing outer =>
      rw [close, RelationScript.expect]
      dsimp only
      split <;> rfl

/-- Brackets behind a query. -/
theorem begins_restrictions {steps : ℕ} (level : Level) (outer : List Level) (base : Query)
    (h : 4 * rest.length + 1 ≤ steps) :
    Begins before all (restrictions steps base) rest (readFromOperator level outer base rest)
      (readFromOperator level outer) (· ≠ .openBracket) := by
  induction steps generalizing base rest with
  | zero => omega
  | succ steps ih =>
    rw [restrictions]
    refine Begins.current ?_
    split
    next hopen =>
      have hlt := length_tail_lt hopen (by decide)
      have hbracket : readFromOperator level outer base rest =
          (readBody base rest.tail).andThen fun restricted more =>
            (RelationScript.expect .closeBracket more).andThen fun _ more =>
              readFromOperator level outer restricted more := by
        rw [readFromOperator_eq, hopen]
        dsimp only
        rw [readBracket, Reading.andThen_assoc]
        congr 1
        funext restricted more
        exact Reading.andThen_assoc _ _ _
      rw [hbracket]
      refine Begins.advance ?_
      have hbody := @follows_body before all rest.tail steps base (by omega)
      refine (hbody.begins (readBody_suffix base rest.tail).length_le).bind
        fun restricted more hle _ => ?_
      refine Begins.expect fun hclose => ih restricted ?_
      have hlt' := length_tail_lt hclose (by decide)
      omega
    next hopen => exact .pure rfl hopen

mutual

/-- A name, or an expression in parentheses. -/
theorem begins_primary {steps : ℕ} (level : Level) (outer : List Level) (rest : List Lexeme)
    (h : 4 * rest.length + 1 ≤ steps) :
    Begins before all (primary steps) rest (readFromOperand level outer rest)
      (readFromOperator level outer) fun _ => True := by
  cases steps with
  | zero => omega
  | succ steps =>
    rw [primary, readFromOperand_eq]
    refine Begins.current ?_
    cases hnext : nextToken rest with
    | name name =>
      have hname : Follows before all (OnTape.name .operand) rest (.ok name, rest.tail) := by
        have hfollows := @follows_name before all rest .operand
        rwa [readName, hnext] at hfollows
      have hnamed : Follows before all (OnTape.name .operand >>= fun name => Pure.pure (.named name))
          rest (.ok (Query.named name), rest.tail) := hname.bind_ok (.pure _)
      exact hnamed.begins (List.tail_suffix rest).length_le
    | openParen =>
      have hlt := length_tail_lt hnext (by decide)
      refine Begins.advance ?_
      refine (begins_expression (level :: outer) rest.tail (by omega)).bind fun query more hle _ => ?_
      exact Begins.expect fun _ => .pure rfl trivial
    | _ => exact (follows_unexpected _).begins (le_refl _)

/-- An operand with its brackets. -/
theorem begins_factor {steps : ℕ} (level : Level) (outer : List Level) (rest : List Lexeme)
    (h : 4 * rest.length + 2 ≤ steps) :
    Begins before all (factor steps) rest (readFromOperand level outer rest)
      (readFromOperator level outer) (· ≠ .openBracket) := by
  cases steps with
  | zero => omega
  | succ steps =>
    rw [factor]
    refine (begins_primary level outer rest (by omega)).bind fun base more hle _ => ?_
    exact begins_restrictions level outer base (by omega)

/-- The factors of a term behind the first one. -/
theorem begins_products {steps : ℕ} (level : Level) (outer : List Level) (query : Query)
    (rest : List Lexeme) (h : 4 * rest.length + 1 ≤ steps) (hopen : nextToken rest ≠ .openBracket) :
    Begins before all (products steps (level.term query)) rest
      (readFromOperator level outer query rest) (readFromOperator ⟨level.terms, none⟩ outer)
      fun token => token ≠ .openBracket ∧ token ≠ .times := by
  cases steps with
  | zero => omega
  | succ steps =>
    rw [products]
    refine Begins.current ?_
    split
    next htimes =>
      have hlt := length_tail_lt htimes (by decide)
      refine Begins.advance ?_
      rw [readFromOperator_eq, htimes]
      refine (begins_factor (level.afterTimes query) outer rest.tail (by omega)).bind
        fun right more hle hopen' => ?_
      exact begins_products (level.afterTimes query) outer right more (by omega) hopen'
    next htimes =>
      exact .pure (readFromOperator_term level outer query hopen htimes) ⟨hopen, htimes⟩

/-- Factors with product signs between them. -/
theorem begins_term {steps : ℕ} (terms : Option (Query × SetOperator)) (outer : List Level)
    (rest : List Lexeme) (h : 4 * rest.length + 3 ≤ steps) :
    Begins before all (term steps) rest (readFromOperand ⟨terms, none⟩ outer rest)
      (readFromOperator ⟨terms, none⟩ outer) fun token => token ≠ .openBracket ∧ token ≠ .times := by
  cases steps with
  | zero => omega
  | succ steps =>
    rw [term]
    refine (begins_factor ⟨terms, none⟩ outer rest (by omega)).bind fun first more hle hopen => ?_
    exact begins_products ⟨terms, none⟩ outer first more (by omega) hopen

/-- The terms of an expression behind the first one. -/
theorem begins_combinations {steps : ℕ} (level : Level) (outer : List Level) (query : Query)
    (rest : List Lexeme) (h : 4 * rest.length + 1 ≤ steps)
    (hends : nextToken rest ≠ .openBracket ∧ nextToken rest ≠ .times) :
    Begins before all (combinations steps (level.total query)) rest
      (readFromOperator level outer query rest) (close outer) fun _ => True := by
  cases steps with
  | zero => omega
  | succ steps =>
    rw [combinations]
    refine Begins.current ?_
    cases hnext : nextToken rest with
    | setOperator operator =>
      have hlt := length_tail_lt hnext (by simp)
      refine Begins.advance ?_
      rw [readFromOperator_eq, hnext]
      refine (begins_term (level.afterOperator query operator).terms outer rest.tail (by omega)).bind
        fun right more hle hends' => ?_
      exact begins_combinations (level.afterOperator query operator) outer right more (by omega) hends'
    | _ =>
      refine .pure (readFromOperator_total level outer query hends.1 hends.2 ?_) trivial
      simp [hnext]

/-- Terms with set operators between them. -/
theorem begins_expression {steps : ℕ} (outer : List Level) (rest : List Lexeme)
    (h : 4 * rest.length + 4 ≤ steps) :
    Begins before all (expression steps) rest (readFromOperand .start outer rest) (close outer)
      fun _ => True := by
  cases steps with
  | zero => omega
  | succ steps =>
    rw [expression]
    refine (begins_term none outer rest (by omega)).bind fun first more hle hends => ?_
    exact begins_combinations .start outer first more (by omega) hends

end

/-! ## Whole inputs -/

/-- **The descent through an expression follows the reader of queries.** -/
theorem follows_expression {steps : ℕ} (h : 4 * rest.length + 4 ≤ steps) :
    Follows before all (expression steps) rest (readQuery rest) := by
  obtain ⟨part, hfollows, hreading, -⟩ := begins_expression [] rest h
  have hpart : readQuery rest = part := by
    rw [readQuery, hreading]
    rcases part with ⟨_ | _, _⟩ <;> rfl
  rwa [hpart]

theorem follows_whole {steps : ℕ} (h : 4 * rest.length + 4 ≤ steps) :
    Follows before all (whole steps) rest (readWhole rest) :=
  (follows_expression h).bind fun query _ _ => (follows_expect _).map fun _ => query

/-- The target of a statement is a name behind an arrow, as it is on the tape. -/
theorem readTarget_eq_readName (query : Query) (lexemes : List Lexeme) :
    readTarget query lexemes =
      if nextToken lexemes = .arrow then
        (readName .targetName lexemes.tail).andThen fun target rest =>
          (RelationScript.expect .endOfLine rest).map fun _ => ⟨query, target⟩
      else RelationScript.unexpected .arrow lexemes := by
  rw [readTarget_eq]
  split
  · unfold readName
    cases nextToken lexemes.tail <;> rfl
  · rfl

/-- A statement is a query and its target. -/
theorem follows_statement {steps : ℕ} (h : 4 * rest.length + 4 ≤ steps) :
    Follows before all (statement steps) rest (readStatement rest) := by
  refine (follows_expression h).bind fun query more _ => ?_
  rw [readTarget_eq_readName]
  refine Follows.current ?_
  split
  · refine Follows.advance ?_
    exact (follows_name _).bind fun target _ _ =>
      (follows_expect _).map fun _ => Statement.mk query target
  · exact follows_unexpected _

/-- **Each call of the parser does what the readers do**, if there are steps enough for the lexemes.
-/
theorem follows_call {steps : ℕ} (call : Call) (h : 4 * rest.length + 4 ≤ steps) :
    Follows before all (call.onTape steps) rest (call.read rest) := by
  cases call with
  | expression => exact (follows_expression h).map _
  | whole => exact (follows_whole h).map _
  | statement => exact (follows_statement h).map _

end OnTape

end RelationScript
