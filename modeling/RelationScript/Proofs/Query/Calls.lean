/-
# Calls on one tape

A tape can be read time after time, whatever became of the calls before: each of them comes to an end
and starts from what the ones before it have left.

* `Tape.Answers` : what one call does to a tape;
* `Tape.AnswersAll` : a run of calls, each on the tape that the one before it has left;
* `exists_session` : any calls on the tape of any line are such a run.
-/
import RelationScript.Proofs.Query.InPlace

namespace RelationScript

/-! ## What calls do -/

/-- The place in a line after so many steps of the scanner, each of which finds a token or a fault. -/
def Cursor.after (line : String) (taken : ℕ) : Cursor :=
  (fun place => place.next.2)^[taken] (Cursor.ofLine line)

namespace Tape

/-- What a call does to a tape with these lexemes on it: `done` is its outcome and the tape after it. -/
structure Answers (lexemes : List Lexeme) (tape : Tape) (call : Call)
    (done : Except Halt (Query ⊕ Statement) × Tape) : Prop where
  /-- The place does not go back. -/
  forward : tape.head ≤ done.2.head
  /-- It does not go beyond the last token. -/
  within : done.2.head ≤ done.2.tokens.length
  /-- Nothing has been out of range, and no token has been another one than it was taken for. -/
  sound : done.1 ≠ .error .broken
  /-- A fault is about the token at the place. -/
  found : ∀ fault, done.1 = .error (.fault fault) → fault.found = done.2.current
  /-- From the place on, the tokens are those of the lexemes. -/
  tokens : done.2.tokens.drop done.2.head = (lexemes.map Lexeme.token).drop done.2.head
  /-- There are as many tokens as ever, and nothing else has been changed. -/
  kept : done.2.tokens.length = lexemes.length ∧ done.2.spans = tape.spans ∧ done.2.line = tape.line
  /-- The outcome is that of the reader of the lexemes left, and it leaves the same lexemes. -/
  reads : ∃ outcome, call.read (lexemes.drop tape.head) = (outcome, lexemes.drop done.2.head) ∧
    done.1 = outcome.mapError .fault

/-- What calls do to a tape one after the other. -/
inductive AnswersAll (lexemes : List Lexeme) :
    Tape → List Call → List (Except Halt (Query ⊕ Statement) × Tape) → Prop
  | nil (tape : Tape) : AnswersAll lexemes tape [] []
  | cons {tape : Tape} {call : Call} {calls : List Call}
      {done : Except Halt (Query ⊕ Statement) × Tape}
      {more : List (Except Halt (Query ⊕ Statement) × Tape)} (h : Answers lexemes tape call done)
      (hmore : AnswersAll lexemes done.2 calls more) :
      AnswersAll lexemes tape (call :: calls) (done :: more)

end Tape

/-! ## Tapes of lines -/

theorem Cursor.next_snd (place : Cursor) :
    place.next.2 =
      ⟨place.offset + (place.rest.takeWhile Text.isBlank).length +
          (Token.scan (place.rest.dropWhile Text.isBlank)).text.length,
        (Token.scan (place.rest.dropWhile Text.isBlank)).rest⟩ := by
  dsimp only [Cursor.next]
  split <;> rfl

/-- A place in a line is behind the characters that come before it. -/
theorem Cursor.exists_append_after (line : String) (taken : ℕ) :
    ∃ before : List Char, line.toList = before ++ (Cursor.after line taken).rest ∧
      before.length = (Cursor.after line taken).offset := by
  induction taken with
  | zero => exact ⟨[], rfl, rfl⟩
  | succ taken ih =>
    obtain ⟨before, hline, hoffset⟩ := ih
    have hnext : Cursor.after line (taken + 1) = (Cursor.after line taken).next.2 :=
      Function.iterate_succ_apply' _ _ _
    rw [hnext, Cursor.next_snd]
    generalize Cursor.after line taken = place at hline hoffset
    have hscan := Token.scan_append (place.rest.dropWhile Text.isBlank)
    have hcut := List.takeWhile_append_dropWhile (p := Text.isBlank) (l := place.rest)
    refine ⟨before ++ place.rest.takeWhile Text.isBlank ++
      (Token.scan (place.rest.dropWhile Text.isBlank)).text, ?_, ?_⟩
    · rw [hline, List.append_assoc, List.append_assoc, hscan, hcut]
    · rw [List.length_append, List.length_append, hoffset]

/-- A tape that is loaded from a place stands before all the lexemes found from there. -/
theorem Tape.exists_at_of_load {line : String} {taken : ℕ} {tape : Tape}
    (h : Tape.load line (Cursor.after line taken) = .ok tape) :
    ∃ before lexemes, (Cursor.after line taken).lexemes = .ok lexemes ∧
      tape.At before lexemes lexemes ∧ tape.tokens = lexemes.map Lexeme.token := by
  obtain ⟨before, hline, hoffset⟩ := Cursor.exists_append_after line taken
  generalize Cursor.after line taken = place at h hline hoffset
  rw [load] at h
  cases hlexemes : place.lexemes with
  | error fault =>
    rw [hlexemes] at h
    cases h
  | ok lexemes =>
    rw [hlexemes] at h
    obtain rfl := Except.ok.inj h
    have hsource := (lexes_of_lexemes hlexemes).eq_source
    have htokens := map_fst_spanned place.offset lexemes
    refine ⟨before, lexemes, rfl, ⟨?_, ?_, ?_, Nat.zero_le _, rfl, ?_⟩, htokens⟩
    · rw [hline, hsource]
    · rw [hoffset]
    · show (List.map Prod.fst _).length = _
      rw [htokens, List.length_map]
    · exact htokens

/-! ## Runs of calls -/

variable {before : List Char} {lexemes rest : List Lexeme}

/-- A call with enough steps halts, answers from the lexemes it stands before, and leaves the tape
on the line. -/
theorem Tape.At.answers {steps : ℕ} {tape : Tape} (h : tape.At before lexemes rest)
    (hsteps : 4 * lexemes.length + 4 ≤ steps) (call : Call) :
    ∃ done, (call.onTape steps).run tape = some done ∧ Tape.Answers lexemes tape call done ∧
      ∃ left, done.2.At before lexemes left := by
  have hle : rest.length ≤ lexemes.length := by
    rw [← h.left, List.length_drop]
    exact Nat.sub_le _ _
  have hfollows := @OnTape.follows_call before lexemes rest steps call (by omega)
  obtain ⟨after, hrun, hafter, hforward, hfound⟩ := hfollows tape h
  refine ⟨_, hrun, ⟨hforward, ?_, ?_, ?_, ?_, ?_, ?_⟩, _, hafter⟩
  · rw [hafter.length]
    exact hafter.head_le
  · cases (call.read rest).1 <;> exact nofun
  · intro fault hfault
    cases hread : (call.read rest).1 with
    | ok value =>
      rw [hread] at hfault
      cases hfault
    | error cause =>
      rw [hread] at hfault
      cases hfault
      exact hfound fault hread
  · rw [hafter.tokens, ← hafter.left, List.map_drop]
  · rw [hafter.spans, hafter.line, h.spans, h.line]
    exact ⟨hafter.length, rfl, rfl⟩
  · refine ⟨(call.read rest).1, ?_, rfl⟩
    rw [h.left, hafter.left]

/-- **A tape can be read time after time.**  Any calls on the tape of what is left of a line come to
an end, each within four steps for a token and four more.  Whatever became of the calls before, the
place goes forward only and stays on the tape, nothing is out of range, a fault leaves the token that
it is about, and of the tokens left none has changed. -/
theorem exists_session (line : String) (taken : ℕ) (tape : Tape)
    (h : Tape.load line (Cursor.after line taken) = .ok tape) (calls : List Call) (steps : ℕ)
    (hsteps : 4 * tape.tokens.length + 4 ≤ steps) :
    ∃ lexemes dones, (Cursor.after line taken).lexemes = .ok lexemes ∧
      tape.session steps calls = some dones ∧ Tape.AnswersAll lexemes tape calls dones := by
  obtain ⟨before, lexemes, hlexemes, hat, htokens⟩ := Tape.exists_at_of_load h
  rw [htokens, List.length_map] at hsteps
  suffices hsession : ∀ (tape : Tape) (rest : List Lexeme), tape.At before lexemes rest →
      ∃ dones, tape.session steps calls = some dones ∧ Tape.AnswersAll lexemes tape calls dones by
    obtain ⟨dones, hdones, hall⟩ := hsession tape lexemes hat
    exact ⟨lexemes, dones, hlexemes, hdones, hall⟩
  clear h hat htokens hlexemes
  induction calls with
  | nil => exact fun tape rest _ => ⟨[], rfl, .nil tape⟩
  | cons call calls ih =>
    intro tape rest hat
    obtain ⟨done, hdone, hanswers, left, hleft⟩ := hat.answers hsteps call
    obtain ⟨dones, hdones, hall⟩ := ih done.2 left hleft
    refine ⟨done :: dones, ?_, .cons hanswers hall⟩
    rw [Tape.session, hdone, Option.bind_some, hdones]
    rfl

/-- Behind one token, the first two calls stop in the middle of the line, the third reads up to its end
and the last one finds nothing left. -/
theorem exists_session_of_faults :
    let line := "| A (B) C"
    let calls := [Call.whole, .whole, .whole, .expression]
    ∃ tape, Tape.load line (Cursor.after line 1) = .ok tape ∧ 4 * tape.tokens.length + 4 ≤ 28 ∧
      (tape.session 28 calls).map (List.map fun done => done.2.head) = some [1, 4, 6, 6] ∧
        ∃ lexemes dones, (Cursor.after line 1).lexemes = .ok lexemes ∧
          tape.session 28 calls = some dones ∧ Tape.AnswersAll lexemes tape calls dones := by
  intro line calls
  have hload : Tape.load line (Cursor.after line 1) = .ok ⟨line.toList,
      [.name "A", .openParen, .name "B", .closeParen, .name "C", .endOfLine],
      [⟨2, 3⟩, ⟨4, 5⟩, ⟨5, 6⟩, ⟨6, 7⟩, ⟨8, 9⟩, ⟨9, 9⟩], 0⟩ := by
    cbv
  refine ⟨_, hload, by decide, ?_, exists_session line 1 _ hload calls 28 (by decide)⟩
  cbv

end RelationScript
