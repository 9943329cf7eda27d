/-
# The first fault of a line

Where a line cannot be scanned, its characters up to the fault can, and they yield the tokens that
were found before it.

* `Breaks` : the lexemes that a line begins with, and the fault behind them;
* `spannedOf_eq_error` : the scanner stops at such a fault and at no other;
* `Scans.cut` : lexemes are found again where the line is cut off behind them;
* `Cursor.Finds` : what the scanner finds step by step;
* `exact_of_spannedOf_eq_error` : the fault of a line and the tokens before it.
-/
import RelationScript.Proofs.Token.Faults

namespace RelationScript

/-! ## The first fault of a line -/

open Token (Spells Stops Unspelled)

/-- The characters begin with the lexemes, and the fault is that no token begins behind them and
blanks. -/
inductive Breaks : List Char → List Lexeme → ScanFault → Prop
  | intro {cs gap rest : List Char} {front : List Lexeme} {cause : ScanCause}
      (hfront : Scans cs front (gap ++ rest)) (hgap : ∀ c ∈ gap, Text.isBlank c = true)
      (hrest : Unspelled cause rest) :
      Breaks cs front ⟨cause, (Lexeme.source front ++ gap).length⟩

/-- A token before the fault moves the fault by the blanks and the text of the token. -/
theorem Breaks.cons {token : Token} {gap text rest : List Char} {more : List Lexeme}
    {cause : ScanCause} {position : ℕ} (hgap : ∀ c ∈ gap, Text.isBlank c = true)
    (hspells : Spells token text) (hstops : Stops token text rest)
    (hmore : Breaks rest more ⟨cause, position⟩) :
    Breaks (gap ++ (text ++ rest)) (⟨token, gap, text⟩ :: more)
      ⟨cause, gap.length + text.length + position⟩ := by
  cases hmore with
  | intro hfront hblanks hrest =>
    have hbreaks := Breaks.intro (.cons hgap hspells hstops hfront) hblanks hrest
    simpa [Nat.add_assoc] using hbreaks

/-- If no lexeme comes next, no token is spelled behind the blanks, and the fault stands there. -/
theorem next_eq_error {cursor after : Cursor} {fault : ScanFault}
    (h : cursor.next = (.error fault, after)) :
    Unspelled fault.cause (cursor.rest.dropWhile Text.isBlank) ∧
      fault.position = cursor.offset + (cursor.rest.takeWhile Text.isBlank).length := by
  dsimp only [Cursor.next] at h
  split at h
  next => simp at h
  next cause hcause =>
    simp only [Prod.mk.injEq, Except.error.injEq] at h
    obtain ⟨rfl, -⟩ := h
    refine ⟨Token.unspelled_of_scan (fun c hc => ?_) hcause, rfl⟩
    simpa [Option.mem_def.mp hc] using List.head?_dropWhile_not Text.isBlank cursor.rest

/-- Where no token is spelled behind the blanks, the scanner reports it at that place. -/
theorem next_of_unspelled {gap rest : List Char} {cause : ScanCause}
    (hgap : ∀ c ∈ gap, Text.isBlank c = true) (hrest : Unspelled cause rest) (offset : ℕ) :
    ∃ after, Cursor.next ⟨offset, gap ++ rest⟩ = (.error ⟨cause, offset + gap.length⟩, after) := by
  have hstart : ∀ c ∈ rest.head?, Text.isBlank c = false := by
    obtain ⟨c, cs, rfl, hc⟩ := hrest.exists_cons
    rintro d ⟨⟩
    exact hc
  simp only [Cursor.next, takeWhile_append_of_stop hgap hstart,
    dropWhile_append_of_stop hgap hstart, Token.scan_of_unspelled hrest]
  exact ⟨_, rfl⟩

/-- A fault of the scanner breaks the rest of the line at the place that is reported. -/
theorem breaks_of_lexemes {cursor : Cursor} {fault : ScanFault}
    (h : cursor.lexemes = .error fault) :
    ∃ front position, Breaks cursor.rest front ⟨fault.cause, position⟩ ∧
      fault.position = cursor.offset + position := by
  fun_induction Cursor.lexemes cursor generalizing fault with
  | case1 cursor found after hnext =>
    obtain rfl : found = fault := by simpa using h
    obtain ⟨hrest, hposition⟩ := next_eq_error hnext
    have hfront := Scans.nil cursor.rest
    rw [← List.takeWhile_append_dropWhile (p := Text.isBlank) (l := cursor.rest)] at hfront
    have hbreaks := Breaks.intro hfront (fun c hc => List.mem_takeWhile_imp hc) hrest
    rw [List.takeWhile_append_dropWhile] at hbreaks
    exact ⟨[], _, hbreaks, hposition⟩
  | case2 => simp at h
  | case3 => simp at h
  | case4 cursor lexeme after hnext hend found hmore ih =>
    obtain rfl : found = fault := by simpa using h
    obtain ⟨front, position, hbreaks, hposition⟩ := ih hmore
    obtain ⟨hscan, hgap⟩ := next_eq_ok hnext
    obtain ⟨hdrop, hspells, hstops⟩ := (Token.scan_eq_ok_iff hend).mp hscan
    have hblanks : ∀ c ∈ lexeme.gap, Text.isBlank c = true :=
      fun c hc => List.mem_takeWhile_imp (hgap ▸ hc)
    have hcut := List.takeWhile_append_dropWhile (p := Text.isBlank) (l := cursor.rest)
    rw [hdrop, ← hgap] at hcut
    -- The place after the lexeme is as far on as its gap and text are long.
    have hspelled := @next_of_spells cursor.offset _ _ _ _ hblanks hspells hstops
    rw [hcut] at hspelled
    have hafter : after.offset = cursor.offset + lexeme.gap.length + lexeme.text.length :=
      congrArg (·.2.offset) (hnext.symm.trans hspelled)
    refine ⟨lexeme :: front, lexeme.gap.length + lexeme.text.length + position, ?_, ?_⟩
    · rw [← hcut]
      exact hbreaks.cons hblanks hspells hstops
    · rw [hposition, hafter]
      simp only [Nat.add_assoc]

/-- A line that breaks at some place has its fault reported there. -/
theorem lexemes_of_breaks {cs : List Char} {front : List Lexeme} {cause : ScanCause} {position : ℕ}
    (h : Breaks cs front ⟨cause, position⟩) (offset : ℕ) :
    Cursor.lexemes ⟨offset, cs⟩ = .error ⟨cause, offset + position⟩ := by
  cases h with
  | @intro gap rest _ _ hfront hgap hrest =>
  generalize hleft : gap ++ rest = left at hfront
  induction hfront generalizing offset with
  | nil =>
    obtain ⟨after, hnext⟩ := next_of_unspelled hgap hrest offset
    rw [← hleft]
    exact lexemes_of_next_fault hnext
  | cons hblanks hspells hstops hmore ih =>
    rw [lexemes_of_spells hblanks hspells hstops, ih _ hleft]
    simp [Except.map, Nat.add_assoc]

/-- **The first fault of a line** comes behind the lexemes that the line begins with. -/
theorem lexemesOf_eq_error {line : String} {fault : ScanFault} :
    lexemesOf line = .error fault ↔ ∃ front, Breaks line.toList front fault := by
  constructor
  · intro h
    obtain ⟨front, position, hbreaks, hposition⟩ := breaks_of_lexemes h
    obtain rfl : fault.position = position := by simpa [Cursor.ofLine] using hposition
    exact ⟨front, hbreaks⟩
  · rintro ⟨front, hbreaks⟩
    have hlexemes := lexemes_of_breaks hbreaks 0
    rwa [Nat.zero_add] at hlexemes

theorem spannedOf_eq_error {line : String} {fault : ScanFault} :
    spannedOf line = .error fault ↔ ∃ front, Breaks line.toList front fault := by
  rw [spannedOf, map_eq_error, lexemesOf_eq_error]

/-! ## The tokens before a fault -/

/-- Where a line is cut off behind some lexemes, they are found as before. -/
theorem Scans.cut {cs kept dropped : List Char} {front : List Lexeme}
    (h : Scans cs front (kept ++ dropped)) : Scans (Lexeme.source front ++ kept) front kept := by
  generalize hleft : kept ++ dropped = left at h
  induction h with
  | nil => exact .nil kept
  | cons hgap hspells hstops hmore ih =>
    rw [hmore.eq_append, ← hleft, ← List.append_assoc] at hstops
    rw [Lexeme.source_cons, List.append_assoc, List.append_assoc]
    exact .cons hgap hspells hstops.of_append (ih hleft)

/-- Step by step the scanner finds the lexemes, from one place in a line to another. -/
inductive Cursor.Finds : Cursor → List Lexeme → Cursor → Prop
  | refl (cursor : Cursor) : Finds cursor [] cursor
  | step {cursor after last : Cursor} {lexeme : Lexeme} {more : List Lexeme}
      (hnext : cursor.next = (.ok lexeme, after)) (hend : lexeme.token ≠ .endOfLine)
      (hmore : Finds after more last) : Finds cursor (lexeme :: more) last

/-- Lexemes that are scanned off the front are found one after the other. -/
theorem Scans.finds {cs rest : List Char} {front : List Lexeme} (h : Scans cs front rest)
    (offset : ℕ) :
    Cursor.Finds ⟨offset, cs⟩ front ⟨offset + (Lexeme.source front).length, rest⟩ := by
  induction h generalizing offset with
  | nil => exact .refl _
  | @cons token gap text _ _ _ hgap hspells hstops hmore ih =>
    have hmore := ih (offset + gap.length + text.length)
    rw [Nat.add_assoc, Nat.add_assoc, ← List.length_append, ← List.length_append] at hmore
    refine .step (next_of_spells hgap hspells hstops) hspells.ne_endOfLine ?_
    simpa [Nat.add_assoc] using hmore

namespace Breaks

variable {cs : List Char} {front : List Lexeme} {fault : ScanFault}

theorem lt_length (h : Breaks cs front fault) : fault.position < cs.length := by
  cases h with
  | @intro gap rest _ _ hfront hgap hrest =>
    obtain ⟨c, more, rfl, -⟩ := hrest.exists_cons
    have hlength := congrArg List.length hfront.eq_append
    rw [List.length_append, List.length_append, List.length_cons] at hlength
    show (Lexeme.source front ++ gap).length < cs.length
    rw [List.length_append]
    omega

theorem unspelled_drop (h : Breaks cs front fault) :
    Unspelled fault.cause (cs.drop fault.position) := by
  cases h with
  | intro hfront hgap hrest =>
    rw [hfront.eq_append, ← List.append_assoc, List.drop_left]
    exact hrest

/-- The lexemes before a fault are found one by one, and then the fault is. -/
theorem exists_finds (h : Breaks cs front fault) :
    ∃ place after, Cursor.Finds ⟨0, cs⟩ front place ∧ place.next = (.error fault, after) := by
  cases h with
  | intro hfront hgap hrest =>
    obtain ⟨after, hnext⟩ := next_of_unspelled hgap hrest (0 + (Lexeme.source front).length)
    refine ⟨_, after, hfront.finds 0, ?_⟩
    rw [hnext, List.length_append, Nat.zero_add]

/-- The tokens before a fault are those of the characters before it. -/
theorem spannedOf_take (h : Breaks cs front fault) :
    spannedOf (String.ofList (cs.take fault.position)) =
      .ok (Lexeme.spanned 0 front ++ [(.endOfLine, ⟨fault.position, fault.position⟩)]) := by
  cases h with
  | @intro gap rest _ _ hfront hgap hrest =>
    have htake : cs.take (Lexeme.source front ++ gap).length = Lexeme.source front ++ gap := by
      rw [hfront.eq_append, ← List.append_assoc, List.take_left]
    refine spannedOf_eq_ok.mpr ⟨front ++ [⟨.endOfLine, gap, []⟩], ?_, ?_⟩
    · rw [String.toList_ofList, htake]
      exact hfront.cut.lexes (.endOfLine hgap)
    · rw [spanned_append]
      simp [Lexeme.spanned]

end Breaks

/-- **Faults are leftmost and exact.**  The scanner stops at a character of the line.  The characters
before it are scanned on their own, into the tokens found before the fault.  No token begins at it,
for the reason that the message tells: an opening quote that no quote follows, a number that is too
large, an exclamation mark or a hyphen alone, or a character that begins no token at all. -/
theorem exact_of_spannedOf_eq_error (line : String) (fault : ScanFault)
    (h : spannedOf line = .error fault) :
    fault.position < line.length ∧
      (∃ produced place after,
        (Cursor.ofLine line).Finds produced place ∧ place.next = (.error fault, after) ∧
          spannedOf (String.ofList (line.toList.take fault.position)) =
            .ok (Lexeme.spanned 0 produced ++
              [(.endOfLine, ⟨fault.position, fault.position⟩)])) ∧
      Unspelled fault.cause (line.toList.drop fault.position) ∧
      ∀ cause cs, Unspelled cause cs → cause.message = fault.cause.message → cause = fault.cause := by
  obtain ⟨front, hbreaks⟩ := spannedOf_eq_error.mp h
  obtain ⟨place, after, hfinds, hnext⟩ := hbreaks.exists_finds
  have hrest := hbreaks.unspelled_drop
  refine ⟨?_, ⟨front, place, after, hfinds, hnext, hbreaks.spannedOf_take⟩, hrest, ?_⟩
  · rw [← String.length_toList]
    exact hbreaks.lt_length
  · intro cause cs hother hmessage
    exact hother.eq_of_message_eq hrest hmessage

/-- The fault is found behind a comparator, and the number is too large for its fraction. -/
theorem exact_of_large_fraction :
    spannedOf "x <= -79228162514264337593543950335.50 y" =
        .error ⟨.badNumber "-79228162514264337593543950335.50" .roundedTooFar, 5⟩ ∧
      5 < "x <= -79228162514264337593543950335.50 y".length ∧
      spannedOf "x <= " =
        .ok [(.name "x", ⟨0, 1⟩), (.comparator .lessEqual, ⟨2, 4⟩), (.endOfLine, ⟨5, 5⟩)] ∧
      Unspelled (.badNumber "-79228162514264337593543950335.50" .roundedTooFar)
        "-79228162514264337593543950335.50 y".toList := by
  have hfault : spannedOf "x <= -79228162514264337593543950335.50 y" =
      .error ⟨.badNumber "-79228162514264337593543950335.50" .roundedTooFar, 5⟩ := by
    cbv
  obtain ⟨hposition, -, hrest, -⟩ := exact_of_spannedOf_eq_error _ _ hfault
  have hfront : spannedOf "x <= " =
      .ok [(.name "x", ⟨0, 1⟩), (.comparator .lessEqual, ⟨2, 4⟩), (.endOfLine, ⟨5, 5⟩)] := by
    cbv
  exact ⟨hfault, hposition, hfront, hrest⟩

end RelationScript
