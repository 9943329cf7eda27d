/-
# Positions in shown lines

A line that is no statement is shown without the blanks around it.  The position of a fault in it
counts the blanks before it all the same, so it fits the shown text only where there are none.

* `Token.Unspelled.of_append` : blanks behind a fault have no part in it;
* `Breaks.trim` : the fault of a text without the blanks around it;
* `Script.position_of_execute_eq_error` : the position of a fault in the shown text.
-/
import RelationScript.Proofs.Script.Runs
import RelationScript.Proofs.Text.Trimming
import RelationScript.Proofs.Token.FirstFault

namespace RelationScript

open Token (NumberStops Unspelled)

/-! ## Blanks behind a text -/

namespace Token

/-- Blanks at the end of a text do not begin before a character that is no blank. -/
theorem exists_append_of_blank {text rest front blanks : List Char}
    (htext : ∀ c ∈ text.getLast?, Text.isBlank c = false)
    (hblanks : ∀ c ∈ blanks, Text.isBlank c = true) (h : text ++ rest = front ++ blanks) :
    ∃ more, front = text ++ more ∧ rest = more ++ blanks := by
  rcases List.append_eq_append_iff.mp h with ⟨more, hfront, hrest⟩ | ⟨last, hlast, hrest⟩
  · exact ⟨more, hfront, hrest⟩
  · by_cases hnil : last = []
    · rw [hnil] at hlast hrest
      exact ⟨[], by simpa using hlast.symm, by simpa using hrest.symm⟩
    · exfalso
      have hmem : last.getLast hnil ∈ blanks := by
        rw [hrest]
        exact List.mem_append_left _ (List.getLast_mem hnil)
      have hblank := htext (last.getLast hnil) (by rw [hlast, List.getLast?_append_of_ne_nil _ hnil,
        List.getLast?_eq_some_getLast hnil, Option.mem_def])
      rw [hblanks _ hmem] at hblank
      cases hblank

/-- Blanks behind a fault have no part in it. -/
theorem Unspelled.of_append {cause : ScanCause} {front blanks : List Char}
    (hblanks : ∀ c ∈ blanks, Text.isBlank c = true) (hfront : front ≠ [])
    (h : Unspelled cause (front ++ blanks)) : Unspelled cause front := by
  obtain ⟨c, front, rfl⟩ := List.exists_cons_of_ne_nil hfront
  generalize hall : c :: front ++ blanks = all at h
  cases h with
  | openText hquote =>
    obtain ⟨rfl, rfl⟩ := List.cons.inj hall
    exact .openText fun hmem => hquote (List.mem_append_left _ hmem)
  | badNumber hsign hwhole hfraction hstops hlarge =>
    have htext : ∀ c ∈ (numberText _ _ _).getLast?, Text.isBlank c = false := fun c hc => by
      rcases of_mem_numberText hsign hwhole hfraction (List.mem_of_getLast? hc)
        with rfl | rfl | hdigit
      · decide
      · decide
      · exact Text.isBlank_of_isDigit hdigit
    obtain ⟨more, hfront, rfl⟩ := exists_append_of_blank htext hblanks hall.symm
    rw [hfront]
    exact .badNumber hsign hwhole hfraction hstops.of_append hlarge
  | loneExclamation hequals =>
    obtain ⟨rfl, rfl⟩ := List.cons.inj hall
    exact .loneExclamation fun hmem => hequals (List.mem_head?_append_of_mem_head? hmem)
  | loneHyphen hgreater hdigit =>
    obtain ⟨rfl, rfl⟩ := List.cons.inj hall
    exact .loneHyphen (fun hmem => hgreater (List.mem_head?_append_of_mem_head? hmem))
      fun d hd => hdigit d (List.mem_head?_append_of_mem_head? hd)
  | stray hblank hstray =>
    obtain ⟨rfl, rfl⟩ := List.cons.inj hall
    exact .stray hblank hstray

end Token

/-! ## Faults of trimmed texts -/

namespace Breaks

variable {cs : List Char} {front : List Lexeme} {fault : ScanFault}

/-- Blanks behind a text have no part in its fault. -/
theorem of_append {blanks : List Char} (hblanks : ∀ c ∈ blanks, Text.isBlank c = true)
    (h : Breaks (cs ++ blanks) front fault) : Breaks cs front fault := by
  cases h with
  | @intro gap rest _ _ hfront hgap hrest =>
    obtain ⟨c, left, rfl, hc⟩ := hrest.exists_cons
    have happend : Lexeme.source front ++ gap ++ [c] ++ left = cs ++ blanks := by
      simpa using hfront.eq_append.symm
    obtain ⟨more, hcs, rfl⟩ := Token.exists_append_of_blank (by simpa using hc) hblanks happend
    -- The fault begins before the blanks, so they are cut off behind it.
    have hfront : Scans (cs ++ blanks) front ((gap ++ c :: more) ++ blanks) := by
      simpa using hfront
    have hcut := hfront.cut
    have hsource : Lexeme.source front ++ (gap ++ c :: more) = cs := by simp [hcs]
    rw [hsource] at hcut
    exact .intro hcut hgap (hrest.of_append hblanks (List.cons_ne_nil c more))

/-- Without the blanks before a text, its fault comes so much earlier. -/
theorem trimStart (h : Breaks cs front fault) :
    ∃ index, fault.position = (cs.takeWhile Text.isBlank).length + index ∧
      Breaks (Text.trimStart cs) (Lexeme.flush front) ⟨fault.cause, index⟩ := by
  cases h with
  | @intro gap rest _ _ hfront hgap hrest =>
    generalize hleft : gap ++ rest = left at hfront
    cases hfront with
    | nil =>
      have hstart : ∀ c ∈ rest.head?, Text.isBlank c = false := by
        obtain ⟨c, more, rfl, hc⟩ := hrest.exists_cons
        rintro d ⟨⟩
        exact hc
      rw [← hleft, Text.trimStart, takeWhile_append_of_stop hgap hstart,
        dropWhile_append_of_stop hgap hstart]
      exact ⟨0, by simp, @Breaks.intro rest [] rest [] _ (.nil rest) (by simp) hrest⟩
    | @cons token blanks text more _ lexemes hblanks hspells hstops hmore =>
      have hstart : ∀ c ∈ (text ++ more).head?, Text.isBlank c = false := by
        obtain ⟨c, cs, rfl, hc⟩ := hspells.exists_cons
        rintro d ⟨⟩
        exact hc
      rw [Text.trimStart, takeWhile_append_of_stop hblanks hstart,
        dropWhile_append_of_stop hblanks hstart]
      rw [← hleft] at hmore
      refine ⟨(Lexeme.source (⟨token, [], text⟩ :: lexemes) ++ gap).length, ?_, ?_⟩
      · simp
      · exact .intro (.token hspells hstops hmore) hgap hrest

/-- **The fault of a trimmed text.** -/
theorem trim (h : Breaks cs front fault) :
    ∃ index, fault.position = (cs.takeWhile Text.isBlank).length + index ∧
      Breaks (Text.trim cs) (Lexeme.flush front) ⟨fault.cause, index⟩ := by
  obtain ⟨index, hposition, hbreaks⟩ := h.trimStart
  obtain ⟨blanks, hblanks, hcs⟩ := Text.exists_eq_trimEnd_append (Text.trimStart cs)
  rw [hcs] at hbreaks
  exact ⟨index, hposition, hbreaks.of_append hblanks⟩

end Breaks

/-! ## Lines in reports -/

theorem Statement.ofLine_eq_scan {line : String} {fault : ScanFault} :
    Statement.ofLine line = .error (.scan fault) ↔ lexemesOf line = .error fault := by
  rw [ofLine]
  cases lexemesOf line with
  | error other => simp
  | ok lexemes =>
    cases hread : (readStatement lexemes).1 <;> simp [hread]

namespace Script

theorem execute_of_lexemesOf_eq_error {options : Options} {store : Store} {line : String}
    {fault : ScanFault} (hskipped : isSkipped line = false) (h : lexemesOf line = .error fault) :
    execute options store line =
      .error (.line (String.ofList (Text.trim line.toList)) (.scan fault)) :=
  execute_eq_error.mpr ⟨hskipped, Or.inl ⟨_, Statement.ofLine_eq_scan.mpr h, rfl⟩⟩

/-- **The position of a fault counts the whole line.**  The line is shown without the blanks around
it, and that text has the same fault.  So the character at fault stands in the shown text, but
before the reported position, by the number of blanks that the line begins with.  The report is that
of the shown text exactly if the line begins with none. -/
theorem position_of_execute_eq_error (options : Options) (store : Store) (line shown : String)
    (fault : ScanFault) (h : execute options store line = .error (.line shown (.scan fault))) :
    ∃ index, fault.position = (line.toList.takeWhile Text.isBlank).length + index ∧
      index < shown.length ∧ shown.toList[index]? = line.toList[fault.position]? ∧
      Unspelled fault.cause (shown.toList.drop index) ∧
      lexemesOf shown = .error ⟨fault.cause, index⟩ ∧
      (lexemesOf shown = .error fault ↔ line.toList.takeWhile Text.isBlank = []) := by
  obtain ⟨-, ⟨cause, hline, hfault⟩ | ⟨_, _, -, -, hfault⟩⟩ := execute_eq_error.mp h
  · obtain ⟨rfl, rfl⟩ := ScriptFault.line.inj hfault
    obtain ⟨front, hbreaks⟩ := lexemesOf_eq_error.mp (Statement.ofLine_eq_scan.mp hline)
    obtain ⟨index, hposition, hshown⟩ := hbreaks.trim
    have hlexemes : lexemesOf (String.ofList (Text.trim line.toList)) =
        .error ⟨fault.cause, index⟩ := by
      rw [lexemesOf_eq_error, String.toList_ofList]
      exact ⟨_, hshown⟩
    refine ⟨index, hposition, ?_, ?_, ?_, hlexemes, ?_⟩
    · rw [String.length_ofList]
      exact hshown.lt_length
    · rw [String.toList_ofList, hposition]
      exact (Text.getElem?_of_trim hshown.lt_length).symm
    · rw [String.toList_ofList]
      exact hshown.unspelled_drop
    · rw [hlexemes, Except.error.injEq]
      constructor
      · intro hsame
        have hzero : (line.toList.takeWhile Text.isBlank).length + index = index := by
          rw [← hposition, ← hsame]
        exact List.length_eq_zero_iff.mp (Nat.add_eq_right.mp hzero)
      · intro hnil
        rw [hnil, List.length_nil, Nat.zero_add] at hposition
        rw [← hposition]
  · cases hfault

/-- Behind a tab and blanks a lone hyphen is reported two characters too far on. -/
theorem position_of_lone_hyphen :
    execute ⟨false⟩ Store.empty "\t A - B -> C " =
        .error (.line "A - B -> C" (.scan ⟨.loneHyphen, 4⟩)) ∧
      lexemesOf "A - B -> C" = .error ⟨.loneHyphen, 2⟩ ∧
      lexemesOf "A - B -> C" ≠ .error ⟨.loneHyphen, 4⟩ := by
  have hscan : lexemesOf "\t A - B -> C " = .error ⟨.loneHyphen, 4⟩ := by cbv
  have htrim : String.ofList (Text.trim "\t A - B -> C ".toList) = "A - B -> C" := by decide
  have hleading : "\t A - B -> C ".toList.takeWhile Text.isBlank = ['\t', ' '] := by decide
  have hline := @execute_of_lexemesOf_eq_error ⟨false⟩ Store.empty _ _ (by decide) hscan
  rw [htrim] at hline
  obtain ⟨index, hposition, -, -, -, hshown, hsame⟩ :=
    position_of_execute_eq_error _ _ _ _ _ hline
  rw [hleading] at hposition hsame
  have hindex : 4 = 2 + index := hposition
  obtain rfl : index = 2 := by omega
  exact ⟨hline, hshown, fun h => absurd (hsame.mp h) (List.cons_ne_nil _ _)⟩

/-- The position of a fault need not be that of a character of the shown text. -/
theorem not_forall_position_lt_length :
    ¬ ∀ (options : Options) (store : Store) (line shown : String) (fault : ScanFault),
      execute options store line = .error (.line shown (.scan fault)) →
        fault.position < shown.length ∧ Unspelled fault.cause (shown.toList.drop fault.position) := by
  intro h
  have hscan : lexemesOf "  !" = .error ⟨.loneExclamation, 2⟩ := by cbv
  have hline := @execute_of_lexemesOf_eq_error ⟨false⟩ Store.empty _ _ (by decide) hscan
  exact absurd (h _ _ _ _ _ hline).1 (by decide)

end Script

end RelationScript
