/-
# Writing lines

Names, signs and paths can be written one behind the other and are scanned as what they are, as
long as no two of them run together.  So the projection of a relation to one of its columns has a
line that states it.

* `exists_scans_path` : a path is scanned as its names and the dots between them;
* `ColumnRef.columnName_ofPath` : a reference along a path denotes the column called by it;
* `exists_ofLine_projection` : a line that projects a relation to one column.
-/
import RelationScript.Proofs.Query.SourceTexts
import RelationScript.Script

namespace RelationScript

/-! ## Paths -/

/-- A path is scanned as its names and the dots between them, without blanks. -/
theorem exists_scans_path {first : String} {more : List String}
    (hall : ∀ name ∈ first :: more, Text.isName name = true) {rest : List Char}
    (hrest : ∀ c ∈ rest.head?, Text.isNameChar c = false) :
    ∃ used, Scans ((".".intercalate (first :: more)).toList ++ rest)
        (⟨.name first, [], first.toList⟩ :: used) rest ∧
      used.map Lexeme.token = Grammar.dotted more := by
  induction more generalizing first with
  | nil =>
    rw [List.forall_mem_singleton] at hall
    rw [String.intercalate_singleton]
    exact ⟨[], .name hall hrest (.nil rest), rfl⟩
  | cons second more ih =>
    rw [List.forall_mem_cons] at hall
    obtain ⟨used, hscans, htokens⟩ := ih hall.2
    -- The dot ends the first name, and the rest is a path again.
    have hline : (".".intercalate (first :: second :: more)).toList ++ rest =
        first.toList ++ (['.'] ++ ((".".intercalate (second :: more)).toList ++ rest)) := by
      rw [String.intercalate_cons_cons]
      simp
    have hdot := Scans.symbol .dot rfl trivial hscans
    rw [hline]
    refine ⟨_, .name hall.1 ?_ hdot, ?_⟩
    · rintro c ⟨⟩
      decide
    · rw [List.map_cons, List.map_cons, htokens]
      rfl

/-! ## Lines -/

theorem Text.exists_trim_eq_cons {c : Char} (h : Text.isBlank c = false) (cs : List Char) :
    ∃ more, Text.trim (c :: cs) = c :: more := by
  rw [Text.trim, Text.trimStart, List.dropWhile_cons_of_neg (by simp [h]), Text.trimEnd,
    List.reverse_cons, List.dropWhile_append]
  split
  · rw [List.dropWhile_cons_of_neg (by simp [h])]
    exact ⟨[], rfl⟩
  · rw [List.reverse_append]
    exact ⟨_, rfl⟩

/-- A line that starts with a name is no comment. -/
theorem isSkipped_of_isName {name : String} (h : Text.isName name = true) (more : String) :
    Script.isSkipped (name ++ more) = false := by
  obtain ⟨c, cs, hname, hc, -⟩ := Token.exists_cons_of_isName h
  obtain ⟨rest, htrim⟩ :=
    Text.exists_trim_eq_cons (Text.isBlank_of_isNameStart hc) (cs ++ more.toList)
  rw [Script.isSkipped, String.toList_append, hname, List.cons_append, htrim]
  rw [beq_eq_false_iff_ne]
  rintro rfl
  exact absurd hc (by decide)

/-! ## Projections to one column -/

theorem intercalate_concat (first : String) (middle : List String) (last : String) :
    ".".intercalate (first :: middle) ++ "." ++ last =
      ".".intercalate (first :: (middle ++ [last])) := by
  induction middle generalizing first with
  | nil => rw [String.intercalate_singleton, List.nil_append, String.intercalate_cons_cons,
      String.intercalate_singleton]
  | cons second middle ih =>
    rw [List.cons_append, String.intercalate_cons_cons, String.intercalate_cons_cons, ← ih]
    simp [String.append_assoc]

/-- A reference along a path denotes the column called by the path. -/
theorem ColumnRef.columnName_ofPath (first : String) (more : List String) :
    (ColumnRef.ofPath first more).columnName = ".".intercalate (first :: more) := by
  rcases List.eq_nil_or_concat more with rfl | ⟨middle, last, rfl⟩
  · rw [String.intercalate_singleton]
    rfl
  · rw [List.concat_eq_append, ← intercalate_concat]
    simp [ofPath, columnName]

/-- The projection of a relation to a column called by a path has a line that states it. -/
theorem exists_ofLine_projection {name first target : String} {more : List String}
    (hname : Text.isName name = true) (hall : ∀ part ∈ first :: more, Text.isName part = true)
    (htarget : Text.isName target = true) :
    ∃ statement text,
      Statement.ofLine (name ++ "[" ++ ".".intercalate (first :: more) ++ "] -> " ++ target) =
        .ok statement ∧
      statement.query = .project (.named name) [.ofPath first more] text ∧
      statement.target = target := by
  have hstop : ∀ c ∈ [']'].head?, Text.isNameChar c = false := by
    rintro c ⟨⟩
    decide
  obtain ⟨used, hscans, htokens⟩ := exists_scans_path hall hstop
  have hbody : Grammar.IsBody ((⟨.name first, [], first.toList⟩ :: used).map Lexeme.token)
      (.columns [.ofPath first more]) := by
    simpa [htokens] using Grammar.IsBody.columns (Grammar.isColumn_ofPath first more) [] (by simp)
  have hline := ofLine_of_scans hscans rfl hbody hname htarget
  exact ⟨_, _, hline, rfl, rfl⟩

end RelationScript
