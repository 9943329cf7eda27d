/-
# Aligned tables

In the table of a relation each column starts at one offset, in the line of names and in all lines
of rows, and bars stand between the columns at the same offsets everywhere.  Only blanks at the ends
of lines are missing, so no text is cut but for blanks at the end of the last column.  There is no
table of columns that are wider than what texts can be padded to.

* `Table.start`, `Table.IsBoundary` : where the columns start and where bars stand between them;
* `Table.Shows` : a line shows texts in these columns;
* `Table.Aligned` : all lines of a table are so;
* `Table.InRange` : all texts of a table can be padded to;
* `Table.lines_eq_ok` : when there is a table, and its lines;
* `aligned_iff_inRange` : the tables of well-formed relations are aligned, if there are any.
-/
import RelationScript.Proofs.Outcome
import RelationScript.Proofs.Relation.WellFormed
import RelationScript.Proofs.Text.Trimming
import RelationScript.Table

namespace RelationScript

namespace Table

/-! ## Columns -/

/-- The offset of a column: three characters stand between a column and the next. -/
def start (widths : List ℕ) (column : ℕ) : ℕ :=
  ((widths.take column).map (· + 3)).sum

/-- The offset is that of the bar before some column. -/
def IsBoundary (widths : List ℕ) (offset : ℕ) : Prop :=
  ∃ column, column + 1 < widths.length ∧ offset + 2 = start widths (column + 1)

/-- The texts are no longer than the widths of their columns. -/
def Fits (widths : List ℕ) (texts : List (List Char)) : Prop :=
  List.Forall₂ (fun width text => text.length ≤ width) widths texts

/-- Texts filled up to the widths of their columns, with bars between them. -/
def filled (widths : List ℕ) (texts : List (List Char)) : List Char :=
  [' ', '|', ' '].intercalate (List.zipWith fill widths texts)

/-- A line shows the texts in columns of these widths. -/
structure Shows (widths : List ℕ) (texts : List (List Char)) (shown : List Char) : Prop where
  /-- There is a text for each column, and it is no longer than the column. -/
  fits : Fits widths texts
  /-- Of the texts filled up to their widths only blanks at the end are missing. -/
  filled : ∃ blanks, (∀ c ∈ blanks, Text.isBlank c = true) ∧ filled widths texts = shown ++ blanks
  /-- Bars stand at all boundaries. -/
  bar : ∀ offset, IsBoundary widths offset → shown[offset]? = some '|'
  /-- Any other bar belongs to a text. -/
  otherBar : ∀ offset : ℕ, shown[offset]? = some '|' → IsBoundary widths offset ∨
    ∃ (column : ℕ) (text : List Char) (index : ℕ), texts[column]? = some text ∧
      text[index]? = some '|' ∧ offset = start widths column + index
  /-- A text starts where its column does; behind it stand spaces up to the next bar. -/
  text : ∀ (column : ℕ) (text : List Char) (width : ℕ), texts[column]? = some text →
    widths[column]? = some width → column + 1 < widths.length →
      (shown.drop (start widths column)).take (width + 2) =
        text ++ List.replicate (width - text.length) ' ' ++ [' ', '|']
  /-- The last text starts where its column does and ends the line, without the blanks at its
  end. -/
  lastText : ∀ (column : ℕ) (text : List Char), texts[column]? = some text →
    column + 1 = widths.length → shown.drop (start widths column) = Text.trimEnd text

/-- A line of hyphens, with plus signs exactly at the boundaries. -/
structure IsRule (widths : List ℕ) (shown : List Char) : Prop where
  chars : ∀ c ∈ shown, c = '-' ∨ c = '+'
  plus : ∀ offset : ℕ, shown[offset]? = some '+' ↔ IsBoundary widths offset

/-- The lines of the table of a relation, with columns of these widths. -/
structure Aligned (relation : Relation) (widths : List ℕ) (lines : List (List Char)) : Prop where
  /-- The table is these lines with a line feed behind each of them, and no other line feed. -/
  table : relation.table = .ok (String.ofList (lines.flatMap (· ++ ['\n'])))
  newline : ∀ line ∈ lines, '\n' ∉ line
  /-- There are three lines beside those of the rows. -/
  length_lines : lines.length = relation.rows.length + 3
  /-- The first line shows the names of the columns. -/
  names : ∃ line, lines[0]? = some line ∧ Shows widths (headingTexts relation.heading) line
  /-- The second line is a rule. -/
  rule : ∃ line, lines[1]? = some line ∧ IsRule widths line
  /-- The lines behind it show the rows in order. -/
  rows : ∀ (index : ℕ) (row : Row), relation.rows[index]? = some row →
    ∃ line, lines[index + 2]? = some line ∧ Shows widths (cellTexts row) line

theorem start_zero (widths : List ℕ) : start widths 0 = 0 := by
  simp [start]

theorem start_cons_succ (width : ℕ) (widths : List ℕ) (column : ℕ) :
    start (width :: widths) (column + 1) = width + 3 + start widths column := by
  simp [start]

/-- The boundaries are the one behind the first column and those between the others. -/
theorem isBoundary_cons_cons {width next : ℕ} {widths : List ℕ} {offset : ℕ} :
    IsBoundary (width :: next :: widths) offset ↔
      offset = width + 1 ∨
        ∃ inner, IsBoundary (next :: widths) inner ∧ offset = width + 3 + inner := by
  constructor
  · rintro ⟨column, hcolumn, hoffset⟩
    rw [start_cons_succ] at hoffset
    cases column with
    | zero =>
      rw [start_zero] at hoffset
      exact Or.inl (by omega)
    | succ column =>
      have hstart : width + 3 ≤ offset := by
        rw [start_cons_succ] at hoffset
        omega
      refine Or.inr ⟨offset - (width + 3), ⟨column, ?_, by omega⟩, by omega⟩
      rw [List.length_cons] at hcolumn
      omega
  · rintro (rfl | ⟨inner, ⟨column, hcolumn, hinner⟩, rfl⟩)
    · refine ⟨0, by simp, ?_⟩
      rw [start_cons_succ, start_zero]
    · refine ⟨column + 1, ?_, ?_⟩
      · rw [List.length_cons]
        omega
      · rw [start_cons_succ]
        omega

/-! ## Blocks between bars -/

section Blocks

variable {side bar : Char} {blocks : List (List Char)}

/-- From the start of a block on, the blocks are set out in the same way. -/
theorem drop_intercalate {column : ℕ} (h : column < blocks.length) :
    ([side, bar, side].intercalate blocks).drop (start (blocks.map List.length) column) =
      [side, bar, side].intercalate (blocks.drop column) := by
  induction column generalizing blocks with
  | zero => rw [start_zero, List.drop_zero, List.drop_zero]
  | succ column ih =>
    match blocks, h with
    | block :: next :: blocks, h =>
      have hlength : (block ++ [side, bar, side]).length = block.length + 3 := by simp
      have hcolumn : column < (next :: blocks).length := Nat.lt_of_succ_lt_succ h
      rw [List.map_cons, start_cons_succ, List.intercalate_cons_cons, ← hlength, ← List.drop_drop,
        List.drop_left, ih hcolumn, List.drop_succ_cons]

/-- Behind a block stands a bar, unless it is the last one. -/
theorem exists_drop_intercalate {column : ℕ} {block : List Char}
    (hblock : blocks[column]? = some block) (hnext : column + 1 < blocks.length) :
    ∃ rest, ([side, bar, side].intercalate blocks).drop (start (blocks.map List.length) column) =
      block ++ side :: bar :: side :: rest := by
  obtain ⟨hcolumn, rfl⟩ := List.getElem?_eq_some_iff.mp hblock
  rw [drop_intercalate hcolumn, List.drop_eq_getElem_cons hcolumn, List.drop_eq_getElem_cons hnext,
    List.intercalate_cons_cons, List.append_assoc]
  exact ⟨_, rfl⟩

/-- From the start of the last block on there is only this block. -/
theorem drop_intercalate_last {column : ℕ} {block : List Char}
    (hblock : blocks[column]? = some block) (hlast : column + 1 = blocks.length) :
    ([side, bar, side].intercalate blocks).drop (start (blocks.map List.length) column) =
      block := by
  obtain ⟨hcolumn, rfl⟩ := List.getElem?_eq_some_iff.mp hblock
  rw [drop_intercalate hcolumn, List.drop_eq_getElem_cons hcolumn, List.drop_eq_nil_of_le hlast.ge,
    List.intercalate_singleton]

/-- Bars stand at the boundaries of blocks. -/
theorem getElem?_intercalate_of_isBoundary {offset : ℕ}
    (h : IsBoundary (blocks.map List.length) offset) :
    ([side, bar, side].intercalate blocks)[offset]? = some bar := by
  induction blocks generalizing offset with
  | nil =>
    obtain ⟨column, hcolumn, -⟩ := h
    simp at hcolumn
  | cons block blocks ih =>
    cases blocks with
    | nil =>
      obtain ⟨column, hcolumn, -⟩ := h
      simp at hcolumn
    | cons next blocks =>
      rw [List.intercalate_cons_cons, List.append_assoc]
      rcases isBoundary_cons_cons.mp h with rfl | ⟨inner, hinner, rfl⟩
      · rw [List.getElem?_append_right (by omega), Nat.add_sub_cancel_left]
        rfl
      · rw [List.getElem?_append_right (by omega), Nat.add_assoc, Nat.add_sub_cancel_left,
          Nat.add_comm 3]
        exact ih hinner

/-- A character stands at a boundary, beside one or in a block. -/
theorem of_getElem?_intercalate {offset : ℕ} {c : Char}
    (h : ([side, bar, side].intercalate blocks)[offset]? = some c) :
    IsBoundary (blocks.map List.length) offset ∧ c = bar ∨ c = side ∨
      ∃ (column : ℕ) (block : List Char) (index : ℕ), blocks[column]? = some block ∧
        block[index]? = some c ∧ offset = start (blocks.map List.length) column + index := by
  induction blocks generalizing offset with
  | nil => simp at h
  | cons block blocks ih =>
    by_cases hblock : offset < block.length
    · refine Or.inr (Or.inr ⟨0, block, offset, rfl, ?_, by rw [start_zero]; omega⟩)
      cases blocks with
      | nil => rwa [List.intercalate_singleton] at h
      | cons next blocks =>
        rwa [List.intercalate_cons_cons, List.append_assoc, List.getElem?_append_left hblock] at h
    · cases blocks with
      | nil =>
        rw [List.intercalate_singleton, List.getElem?_eq_none (by omega)] at h
        cases h
      | cons next blocks =>
        obtain ⟨inner, rfl⟩ := Nat.exists_eq_add_of_le (not_lt.mp hblock)
        rw [List.intercalate_cons_cons, List.append_assoc, List.getElem?_append_right (by omega),
          Nat.add_sub_cancel_left] at h
        match inner, h with
        | 0, h => exact Or.inr (Or.inl (Option.some.inj h).symm)
        | 1, h =>
          refine Or.inl ⟨?_, (Option.some.inj h).symm⟩
          exact isBoundary_cons_cons.mpr (Or.inl rfl)
        | 2, h => exact Or.inr (Or.inl (Option.some.inj h).symm)
        | inner + 3, h =>
          rcases ih h with ⟨hboundary, hc⟩ | hc | ⟨column, inside, index, hinside, hindex, hoffset⟩
          · refine Or.inl ⟨isBoundary_cons_cons.mpr (Or.inr ⟨inner, hboundary, ?_⟩), hc⟩
            omega
          · exact Or.inr (Or.inl hc)
          · refine Or.inr (Or.inr ⟨column + 1, inside, index, hinside, hindex, ?_⟩)
            rw [List.map_cons, start_cons_succ]
            omega

end Blocks

/-! ## Filled texts -/

section Filled

variable {widths : List ℕ} {texts : List (List Char)} {width column : ℕ} {text : List Char}

theorem length_fill (h : text.length ≤ width) : (fill width text).length = width := by
  rw [fill, List.length_append, List.length_replicate]
  omega

theorem getElem?_fill (htext : texts[column]? = some text) (hwidth : widths[column]? = some width) :
    (List.zipWith fill widths texts)[column]? = some (fill width text) := by
  rw [List.getElem?_zipWith, hwidth, htext]

theorem Fits.length_le (h : Fits widths texts) (htext : texts[column]? = some text)
    (hwidth : widths[column]? = some width) : text.length ≤ width := by
  obtain ⟨hlt, rfl⟩ := List.getElem?_eq_some_iff.mp htext
  obtain ⟨hlt', rfl⟩ := List.getElem?_eq_some_iff.mp hwidth
  exact (List.forall₂_iff_get.mp h).2 column hlt' hlt

/-- Filled texts are as long as their columns are wide. -/
theorem Fits.map_length_fill (h : Fits widths texts) :
    (List.zipWith fill widths texts).map List.length = widths := by
  induction h with
  | nil => rfl
  | cons hfirst hmore ih => rw [List.zipWith_cons_cons, List.map_cons, length_fill hfirst, ih]

theorem Fits.length_zipWith_fill (h : Fits widths texts) :
    (List.zipWith fill widths texts).length = widths.length := by
  rw [← List.length_map List.length, h.map_length_fill]

theorem Fits.bar_filled (h : Fits widths texts) {offset : ℕ} (hoffset : IsBoundary widths offset) :
    (filled widths texts)[offset]? = some '|' := by
  rw [← h.map_length_fill] at hoffset
  exact getElem?_intercalate_of_isBoundary hoffset

/-- A bar at another place stands in a text. -/
theorem Fits.otherBar_filled (h : Fits widths texts) {offset : ℕ}
    (hbar : (filled widths texts)[offset]? = some '|') : IsBoundary widths offset ∨
      ∃ (column : ℕ) (text : List Char) (index : ℕ), texts[column]? = some text ∧
        text[index]? = some '|' ∧ offset = start widths column + index := by
  have hplace := of_getElem?_intercalate hbar
  rw [h.map_length_fill] at hplace
  rcases hplace with ⟨hoffset, -⟩ | hspace | ⟨column, block, index, hblock, hindex, hoffset⟩
  · exact Or.inl hoffset
  · exact absurd hspace (by decide)
  · obtain ⟨width, text, hwidth, htext, rfl⟩ := List.getElem?_zipWith_eq_some.mp hblock
    refine Or.inr ⟨column, text, index, htext, ?_, hoffset⟩
    -- The spaces behind the text are no bars.
    by_cases hin : index < text.length
    · rwa [fill, List.getElem?_append_left hin] at hindex
    · rw [fill, List.getElem?_append_right (not_lt.mp hin)] at hindex
      have hspace := List.eq_of_mem_replicate (List.mem_of_getElem? hindex)
      exact absurd hspace (by decide)

/-- From the start of a column on: the filled text, and what separates it from the next one. -/
theorem Fits.exists_drop_filled (h : Fits widths texts) (htext : texts[column]? = some text)
    (hwidth : widths[column]? = some width) (hnext : column + 1 < widths.length) :
    ∃ rest, (filled widths texts).drop (start widths column) =
      fill width text ++ ' ' :: '|' :: ' ' :: rest := by
  rw [← h.length_zipWith_fill] at hnext
  have hdrop := @exists_drop_intercalate ' ' '|' _ _ _ (getElem?_fill htext hwidth) hnext
  rwa [h.map_length_fill] at hdrop

/-- From the start of the last column on there is only its text. -/
theorem Fits.drop_filled_last (h : Fits widths texts) (htext : texts[column]? = some text)
    (hwidth : widths[column]? = some width) (hlast : column + 1 = widths.length) :
    (filled widths texts).drop (start widths column) = fill width text := by
  rw [← h.length_zipWith_fill] at hlast
  have hdrop := @drop_intercalate_last ' ' '|' _ _ _ (getElem?_fill htext hwidth) hlast
  rwa [h.map_length_fill] at hdrop

/-! ## Lines -/

/-- A bar is no blank, so trimming leaves it. -/
theorem getElem?_of_append_blanks {shown blanks : List Char} {offset : ℕ}
    (hblanks : ∀ c ∈ blanks, Text.isBlank c = true)
    (h : (shown ++ blanks)[offset]? = some '|') : shown[offset]? = some '|' := by
  by_cases hoffset : offset < shown.length
  · rwa [List.getElem?_append_left hoffset] at h
  · rw [List.getElem?_append_right (not_lt.mp hoffset)] at h
    exact absurd (hblanks '|' (List.mem_of_getElem? h)) (by decide)

theorem start_succ (hwidth : widths[column]? = some width) :
    start widths (column + 1) = start widths column + (width + 3) := by
  rw [start, List.take_add_one, hwidth, List.map_append, List.sum_append]
  rfl

/-- **A line shows its texts.** -/
theorem Fits.shows_trimEnd (h : Fits widths texts) :
    Shows widths texts (Text.trimEnd (filled widths texts)) := by
  obtain ⟨blanks, hblanks, hcut⟩ := Text.exists_eq_trimEnd_append (filled widths texts)
  generalize hshown : Text.trimEnd (filled widths texts) = shown at hcut
  have hbar : ∀ offset, IsBoundary widths offset → shown[offset]? = some '|' := by
    intro offset hoffset
    have hfilled := h.bar_filled hoffset
    rw [hcut] at hfilled
    exact getElem?_of_append_blanks hblanks hfilled
  refine ⟨h, ⟨blanks, hblanks, hcut⟩, hbar, ?_, ?_, ?_⟩
  · intro offset hoffset
    refine h.otherBar_filled ?_
    have hlt := (List.getElem?_eq_some_iff.mp hoffset).1
    rwa [hcut, List.getElem?_append_left hlt]
  · intro column text width htext hwidth hnext
    -- The line reaches to the next bar, and up to there nothing is missing.
    have hoffset := hbar (start widths column + (width + 1))
      ⟨column, hnext, by rw [start_succ hwidth]; omega⟩
    have hlt := (List.getElem?_eq_some_iff.mp hoffset).1
    obtain ⟨rest, hdrop⟩ := h.exists_drop_filled htext hwidth hnext
    have hlength : (fill width text ++ [' ', '|']).length = width + 2 := by
      rw [List.length_append, length_fill (h.length_le htext hwidth)]
      rfl
    calc (shown.drop (start widths column)).take (width + 2)
        = ((filled widths texts).drop (start widths column)).take (width + 2) := by
          rw [hcut, List.drop_append_of_le_length (by omega),
            List.take_append_of_le_length (by rw [List.length_drop]; omega)]
      _ = ((fill width text ++ [' ', '|']) ++ ' ' :: rest).take (width + 2) := by
          rw [hdrop, List.append_assoc]
          rfl
      _ = fill width text ++ [' ', '|'] := by rw [← hlength, List.take_left]
  · intro column text htext hlast
    have hlt : column < widths.length := by omega
    rw [← hshown, Text.drop_trimEnd,
      h.drop_filled_last htext (List.getElem?_eq_getElem hlt) hlast, fill]
    refine Text.trimEnd_append_of_blank text fun c hc => ?_
    rw [List.eq_of_mem_replicate hc]
    decide

end Filled

/-- The rule is drawn for the widths of the columns. -/
theorem isRule_rule (widths : List ℕ) : IsRule widths (rule widths) := by
  have hlengths : (widths.map (List.replicate · '-')).map List.length = widths := by
    simp [Function.comp_def]
  have hplace : ∀ {offset c}, (rule widths)[offset]? = some c →
      IsBoundary widths offset ∧ c = '+' ∨ c = '-' := by
    intro offset c hc
    have hplace := of_getElem?_intercalate hc
    rw [hlengths] at hplace
    rcases hplace with hboundary | hside | ⟨column, block, index, hblock, hindex, -⟩
    · exact Or.inl hboundary
    · exact Or.inr hside
    · obtain ⟨width, -, rfl⟩ := List.mem_map.mp (List.mem_of_getElem? hblock)
      exact Or.inr (List.eq_of_mem_replicate (List.mem_of_getElem? hindex))
  constructor
  · intro c hc
    obtain ⟨offset, hoffset⟩ := List.mem_iff_getElem?.mp hc
    rcases hplace hoffset with ⟨-, hplus⟩ | hhyphen
    · exact Or.inr hplus
    · exact Or.inl hhyphen
  · intro offset
    constructor
    · intro hplus
      rcases hplace hplus with ⟨hboundary, -⟩ | hhyphen
      · exact hboundary
      · exact absurd hhyphen (by decide)
    · intro hboundary
      rw [← hlengths] at hboundary
      exact getElem?_intercalate_of_isBoundary hboundary

/-! ## Widths -/

section Widths

variable {widths : List ℕ} {texts row heading : List (List Char)} {rows : List (List (List Char))}

/-- Columns that are made wider hold what they held. -/
theorem Fits.zipWith_max (h : Fits widths texts) (hrow : row.length = widths.length) :
    Fits (List.zipWith max widths (row.map List.length)) texts := by
  induction h generalizing row with
  | nil => exact .nil
  | cons hfirst hmore ih =>
    cases row with
    | nil => cases hrow
    | cons text row => exact .cons (le_max_of_le_left hfirst) (ih (Nat.succ.inj hrow))

/-- They hold the texts that they are made wider for. -/
theorem fits_zipWith_max (hrow : row.length = widths.length) :
    Fits (List.zipWith max widths (row.map List.length)) row := by
  induction widths generalizing row with
  | nil =>
    obtain rfl := List.length_eq_zero_iff.mp hrow
    exact .nil
  | cons width widths ih =>
    cases row with
    | nil => cases hrow
    | cons text row => exact .cons (le_max_right _ _) (ih (Nat.succ.inj hrow))

/-- What the columns hold they still hold when other rows have made them wider. -/
theorem Fits.foldl (h : Fits widths texts) (hrows : ∀ row ∈ rows, row.length = widths.length) :
    Fits (rows.foldl (fun widths row => List.zipWith max widths (row.map List.length)) widths)
      texts := by
  induction rows generalizing widths with
  | nil => exact h
  | cons row rows ih =>
    rw [List.forall_mem_cons] at hrows
    refine ih (h.zipWith_max hrows.1) fun other hother => ?_
    rw [List.length_zipWith, List.length_map, hrows.1, min_self, hrows.2 other hother]

/-- Each row is held by the columns that it has made wider, whatever rows follow. -/
theorem fits_foldl (hrows : ∀ row ∈ rows, row.length = widths.length) (hrow : row ∈ rows) :
    Fits (rows.foldl (fun widths row => List.zipWith max widths (row.map List.length)) widths)
      row := by
  induction rows generalizing widths with
  | nil => cases hrow
  | cons first rows ih =>
    rw [List.forall_mem_cons] at hrows
    have hwider : ∀ other ∈ rows, other.length =
        (List.zipWith max widths (first.map List.length)).length := by
      intro other hother
      rw [List.length_zipWith, List.length_map, hrows.1, min_self, hrows.2 other hother]
    rcases List.mem_cons.mp hrow with rfl | hrow
    · exact (fits_zipWith_max hrows.1).foldl hwider
    · exact ih hwider hrow

/-- The columns of a table are wide enough for the names, and for the cells of each row. -/
theorem fits_widths (hrows : ∀ row ∈ rows, row.length = heading.length) :
    Fits (Table.widths heading rows) heading ∧
      ∀ row ∈ rows, Fits (Table.widths heading rows) row := by
  have hheading : Fits (heading.map List.length) heading :=
    List.forall₂_map_left_iff.mpr (List.forall₂_same.mpr fun _ _ => le_refl _)
  have hlengths : ∀ row ∈ rows, row.length = (heading.map List.length).length := by
    intro row hrow
    rw [hrows row hrow, List.length_map]
  exact ⟨hheading.foldl hlengths, fun row hrow => fits_foldl hlengths hrow⟩

/-- The texts of a row do not make columns wider than the longest of them. -/
theorem forall_zipWith_max_le {limit : ℕ} (hwidths : ∀ width ∈ widths, width ≤ limit)
    (hrow : ∀ text ∈ row, text.length ≤ limit) :
    ∀ width ∈ List.zipWith max widths (row.map List.length), width ≤ limit := by
  intro width hmem
  rw [← List.map_uncurry_zip_eq_zipWith, List.mem_map] at hmem
  obtain ⟨⟨left, right⟩, hpair, rfl⟩ := hmem
  obtain ⟨hleft, hright⟩ := List.of_mem_zip hpair
  obtain ⟨text, htext, rfl⟩ := List.mem_map.mp hright
  exact max_le (hwidths left hleft) (hrow text htext)

/-- All rows together do not make columns wider than the longest text. -/
theorem forall_foldl_le {limit : ℕ} (hwidths : ∀ width ∈ widths, width ≤ limit)
    (hrows : ∀ row ∈ rows, ∀ text ∈ row, text.length ≤ limit) :
    ∀ width ∈ rows.foldl (fun widths row => List.zipWith max widths (row.map List.length)) widths,
      width ≤ limit := by
  induction rows generalizing widths with
  | nil => exact hwidths
  | cons row rows ih =>
    rw [List.forall_mem_cons] at hrows
    exact ih (forall_zipWith_max_le hwidths hrows.1) hrows.2

/-- Texts are not longer than what their columns are not wider than. -/
theorem Fits.forall_length_le (h : Fits widths texts) {limit : ℕ}
    (hwidths : ∀ width ∈ widths, width ≤ limit) : ∀ text ∈ texts, text.length ≤ limit := by
  intro text htext
  obtain ⟨width, hwidth, hle⟩ := exists_left_of_forall₂ h htext
  exact hle.trans (hwidths width hwidth)

/-- Columns are as wide as a limit allows exactly if all texts are as short. -/
theorem forall_widths_le_iff (hrows : ∀ row ∈ rows, row.length = heading.length) {limit : ℕ} :
    (∀ width ∈ Table.widths heading rows, width ≤ limit) ↔
      (∀ text ∈ heading, text.length ≤ limit) ∧
        ∀ row ∈ rows, ∀ text ∈ row, text.length ≤ limit := by
  obtain ⟨hheading, hfits⟩ := fits_widths hrows
  constructor
  · intro h
    exact ⟨hheading.forall_length_le h, fun row hrow => (hfits row hrow).forall_length_le h⟩
  · rintro ⟨hnames, hcells⟩
    refine forall_foldl_le (fun width hwidth => ?_) hcells
    obtain ⟨text, htext, rfl⟩ := List.mem_map.mp hwidth
    exact hnames text htext

end Widths

/-! ## Outcomes of printing -/

section Outcomes

variable {widths : List ℕ} {texts : List (List Char)} {relation : Relation}

/-- A text is padded if the width is in range. -/
theorem pad_eq_ok {width : ℕ} {text padded : List Char} :
    pad width text = .ok padded ↔ width ≤ maxWidth ∧ fill width text = padded := by
  unfold pad
  split
  next hle => simp [hle]
  next hlt => simp [hlt]

/-- A line is printed if all its columns are in range. -/
theorem line_eq_ok {shown : List Char} :
    line widths texts = .ok shown ↔
      (∀ column ∈ widths.zip texts, column.1 ≤ maxWidth) ∧
        Text.trimEnd (filled widths texts) = shown := by
  have hpads : ∀ padded,
      ((widths.zip texts).mapM fun column => pad column.1 column.2) = .ok padded ↔
        (∀ column ∈ widths.zip texts, column.1 ≤ maxWidth) ∧
          List.zipWith fill widths texts = padded := by
    intro padded
    rw [mapM_eq_ok_map (g := Function.uncurry fill) fun _ _ => pad_eq_ok,
      List.map_uncurry_zip_eq_zipWith]
  rw [line, bind_eq_ok]
  constructor
  · rintro ⟨padded, hpadded, hshown⟩
    obtain ⟨hrange, rfl⟩ := (hpads padded).mp hpadded
    exact ⟨hrange, Except.ok.inj hshown⟩
  · rintro ⟨hrange, rfl⟩
    exact ⟨_, (hpads _).mpr ⟨hrange, rfl⟩, rfl⟩

/-- The widths of the columns of a table. -/
def columnWidths (relation : Relation) : List ℕ :=
  Table.widths (headingTexts relation.heading) (relation.rows.map cellTexts)

/-- What the lines of a table show, if they are printed. -/
def shownLines (relation : Relation) : List (List Char) :=
  Text.trimEnd (filled (columnWidths relation) (headingTexts relation.heading)) ::
    rule (columnWidths relation) ::
      (relation.rows.map cellTexts).map
        (fun texts => Text.trimEnd (filled (columnWidths relation) texts)) ++
          [footer relation.rows.length]

/-- The line of names has a text for each column, so all columns have to be in range for it. -/
theorem lines_eq_ok
    (hlength : (columnWidths relation).length = (headingTexts relation.heading).length)
    {shown : List (List Char)} :
    lines relation = .ok shown ↔
      (∀ width ∈ columnWidths relation, width ≤ maxWidth) ∧ shownLines relation = shown := by
  rw [lines, bind_eq_ok]
  constructor
  · rintro ⟨names, hnames, h⟩
    obtain ⟨rows, hrows, hshown⟩ := bind_eq_ok.mp h
    obtain ⟨hrange, rfl⟩ := line_eq_ok.mp hnames
    obtain ⟨-, rfl⟩ := (mapM_eq_ok_map fun _ _ => line_eq_ok).mp hrows
    refine ⟨fun width hwidth => ?_, Except.ok.inj hshown⟩
    rw [← List.map_fst_zip (le_of_eq hlength), List.mem_map] at hwidth
    obtain ⟨column, hcolumn, rfl⟩ := hwidth
    exact hrange column hcolumn
  · rintro ⟨hrange, rfl⟩
    have hcolumns : ∀ texts : List (List Char),
        ∀ column ∈ (columnWidths relation).zip texts, column.1 ≤ maxWidth :=
      fun _ column hcolumn => hrange column.1 (List.of_mem_zip hcolumn).1
    refine ⟨_, line_eq_ok.mpr ⟨hcolumns _, rfl⟩, bind_eq_ok.mpr ⟨_, ?_, rfl⟩⟩
    exact (mapM_eq_ok_map fun _ _ => line_eq_ok).mpr ⟨fun texts _ => hcolumns texts, rfl⟩

end Outcomes

/-! ## Line feeds -/

/-- Padding and bars bring no line feeds into a line. -/
theorem newline_not_mem_trimEnd {widths : List ℕ} {texts : List (List Char)}
    (h : ∀ text ∈ texts, '\n' ∉ text) : '\n' ∉ Text.trimEnd (filled widths texts) := by
  intro hline
  have hfilled : '\n' ∈ filled widths texts := (List.rdropWhile_prefix _ _).subset hline
  obtain ⟨offset, hoffset⟩ := List.mem_iff_getElem?.mp hfilled
  rcases of_getElem?_intercalate hoffset with
    ⟨-, hbar⟩ | hspace | ⟨column, block, index, hblock, hindex, -⟩
  · exact absurd hbar (by decide)
  · exact absurd hspace (by decide)
  · obtain ⟨width, text, -, htext, rfl⟩ := List.getElem?_zipWith_eq_some.mp hblock
    rcases List.mem_append.mp (List.mem_of_getElem? hindex) with hmem | hmem
    · exact h text (List.mem_of_getElem? htext) hmem
    · exact absurd (List.eq_of_mem_replicate hmem) (by decide)

theorem newline_not_mem_rule (widths : List ℕ) : '\n' ∉ rule widths := by
  intro hrule
  rcases (isRule_rule widths).chars _ hrule with hhyphen | hplus
  · exact absurd hhyphen (by decide)
  · exact absurd hplus (by decide)

/-- The count of rows holds no line feed. -/
theorem newline_not_mem_footer (count : ℕ) : '\n' ∉ footer count := by
  intro hfooter
  rcases List.mem_append.mp hfooter with hmem | hmem
  · rcases List.mem_cons.mp hmem with hparenthesis | hdigit
    · exact absurd hparenthesis (by decide)
    · have hisDigit := Nat.isDigit_of_mem_toDigits (by decide) (by decide) hdigit
      exact absurd hisDigit (by decide)
  · split at hmem <;> exact absurd hmem (by decide)

/-! ## Tables in range -/

/-- No name and no shown cell is longer than what a text can be padded to. -/
structure InRange (relation : Relation) : Prop where
  names : ∀ name ∈ relation.heading.names, name.length ≤ maxWidth
  cells : ∀ row ∈ relation.rows, ∀ cell ∈ row, cell.display.length ≤ maxWidth

variable {relation : Relation}

/-- Well-formed relations have a text for each column in every line. -/
theorem length_cellTexts (h : relation.WellFormed) : ∀ texts ∈ relation.rows.map cellTexts,
    texts.length = (headingTexts relation.heading).length := by
  intro texts htexts
  obtain ⟨row, hrow, rfl⟩ := List.mem_map.mp htexts
  rw [cellTexts, headingTexts, List.length_map, List.length_map, h.length_eq hrow]

/-- The columns are in range exactly if the texts are. -/
theorem forall_columnWidths_le_iff (h : relation.WellFormed) :
    (∀ width ∈ columnWidths relation, width ≤ maxWidth) ↔ InRange relation := by
  rw [columnWidths, forall_widths_le_iff (length_cellTexts h)]
  constructor
  · rintro ⟨hnames, hcells⟩
    constructor
    · intro name hname
      obtain ⟨column, hcolumn, rfl⟩ := List.mem_map.mp hname
      exact hnames _ (List.mem_map_of_mem hcolumn)
    · intro row hrow cell hcell
      exact hcells _ (List.mem_map_of_mem hrow) _ (List.mem_map_of_mem hcell)
  · rintro ⟨hnames, hcells⟩
    constructor
    · intro text htext
      obtain ⟨column, hcolumn, rfl⟩ := List.mem_map.mp htext
      exact hnames column.name (List.mem_map_of_mem hcolumn)
    · intro texts htexts text htext
      obtain ⟨row, hrow, rfl⟩ := List.mem_map.mp htexts
      obtain ⟨cell, hcell, rfl⟩ := List.mem_map.mp htext
      exact hcells row hrow cell hcell

/-- **There is a table exactly if all texts are in range**, and it consists of the lines shown. -/
theorem table_eq_ok (h : relation.WellFormed) {text : String} :
    relation.table = .ok text ↔
      InRange relation ∧ String.ofList ((shownLines relation).flatMap (· ++ ['\n'])) = text := by
  have hlength := (fits_widths (length_cellTexts h)).1.length_eq
  rw [Relation.table, map_eq_ok]
  constructor
  · rintro ⟨shown, hshown, htext⟩
    obtain ⟨hrange, rfl⟩ := (lines_eq_ok hlength).mp hshown
    exact ⟨(forall_columnWidths_le_iff h).mp hrange, htext⟩
  · rintro ⟨hrange, htext⟩
    exact ⟨_, (lines_eq_ok hlength).mpr ⟨(forall_columnWidths_le_iff h).mpr hrange, rfl⟩, htext⟩

/-- **Printing is aborted exactly if some text is not in range.** -/
theorem table_eq_error (h : relation.WellFormed) {abort : Abort} :
    relation.table = .error abort ↔ ¬ InRange relation := by
  have htable := @table_eq_ok relation h
  cases hprinted : relation.table with
  | ok text => simp [((htable).mp hprinted).1]
  | error cause =>
    cases cause
    cases abort
    simp only [true_iff]
    intro hrange
    rw [(htable).mpr ⟨hrange, rfl⟩] at hprinted
    cases hprinted

/-- The lines shown hold no line feed if the texts hold none. -/
theorem newline_not_mem_shownLines (hnames : ∀ name ∈ relation.heading.names, '\n' ∉ name.toList)
    (hcells : ∀ row ∈ relation.rows, ∀ cell ∈ row, '\n' ∉ cell.display.toList) :
    ∀ line ∈ shownLines relation, '\n' ∉ line := by
  intro line hline
  rcases List.mem_append.mp hline with hline | hfooter
  · rcases List.mem_cons.mp hline with rfl | hline
    · refine newline_not_mem_trimEnd fun text htext => ?_
      obtain ⟨column, hcolumn, rfl⟩ := List.mem_map.mp htext
      exact hnames column.name (List.mem_map_of_mem hcolumn)
    · rcases List.mem_cons.mp hline with rfl | hline
      · exact newline_not_mem_rule _
      · obtain ⟨texts, htexts, rfl⟩ := List.mem_map.mp hline
        obtain ⟨row, hrow, rfl⟩ := List.mem_map.mp htexts
        refine newline_not_mem_trimEnd fun text htext => ?_
        obtain ⟨cell, hcell, rfl⟩ := List.mem_map.mp htext
        exact hcells row hrow cell hcell
  · obtain rfl := List.mem_singleton.mp hfooter
    exact newline_not_mem_footer _

/-- Behind the names and the rule each row has its line. -/
theorem getElem?_shownLines {index : ℕ} {row : Row} (h : relation.rows[index]? = some row) :
    (shownLines relation)[index + 2]? =
      some (Text.trimEnd (filled (columnWidths relation) (cellTexts row))) := by
  have hlt := (List.getElem?_eq_some_iff.mp h).1
  rw [shownLines, List.cons_append, List.cons_append, List.getElem?_cons_succ,
    List.getElem?_cons_succ, List.getElem?_append_left (by simpa using hlt), List.getElem?_map,
    List.getElem?_map, h]
  rfl

/-- A table that is in range is aligned. -/
theorem InRange.aligned (hrange : InRange relation) (h : relation.WellFormed)
    (hnames : ∀ name ∈ relation.heading.names, '\n' ∉ name.toList)
    (hcells : ∀ row ∈ relation.rows, ∀ cell ∈ row, '\n' ∉ cell.display.toList) :
    Aligned relation (columnWidths relation) (shownLines relation) := by
  obtain ⟨hheading, hrows⟩ := fits_widths (length_cellTexts h)
  refine ⟨(table_eq_ok h).mpr ⟨hrange, rfl⟩, newline_not_mem_shownLines hnames hcells, ?_,
    ⟨_, rfl, hheading.shows_trimEnd⟩, ⟨_, rfl, isRule_rule _⟩, ?_⟩
  · simp [shownLines]
  · intro index row hrow
    have hmem : cellTexts row ∈ relation.rows.map cellTexts :=
      List.mem_map_of_mem (List.mem_of_getElem? hrow)
    exact ⟨_, getElem?_shownLines hrow, (hrows _ hmem).shows_trimEnd⟩

end Table

/-- **Tables are aligned, if there are any.**  If no name and no shown cell has a line feed in it,
the table of a well-formed relation has a line for the names, a rule and a line for each row, in
columns with the same offsets, and one more line.  Bars stand between the columns, the rule has its
plus signs there, and every text stands whole in its column but for blanks at the end of the last
one.  There is such a table exactly if no text is longer than what can be padded to, and else
printing is aborted. -/
theorem aligned_iff_inRange (relation : Relation) (h : relation.WellFormed)
    (hnames : ∀ name ∈ relation.heading.names, '\n' ∉ name.toList)
    (hcells : ∀ row ∈ relation.rows, ∀ cell ∈ row, '\n' ∉ cell.display.toList) :
    ((∃ widths lines, Table.Aligned relation widths lines) ↔ Table.InRange relation) ∧
      (relation.table = .error .widthOutOfRange ↔ ¬ Table.InRange relation) := by
  refine ⟨⟨?_, fun hrange => ⟨_, _, hrange.aligned h hnames hcells⟩⟩, Table.table_eq_error h⟩
  rintro ⟨widths, lines, haligned⟩
  exact ((Table.table_eq_ok h).mp haligned.table).1

/-- A blank last cell, a bar in a cell and a cell that is wider than its name. -/
theorem aligned_of_blankCell :
    let relation : Relation := ⟨[⟨"a|b", .string⟩, ⟨"", .string⟩],
      [[.text "x", .text " "], [.text "| y |", .text "z"]]⟩
    relation.WellFormed ∧
      relation.table = .ok "a|b   |\n------+--\nx     |\n| y | | z\n(2 rows)\n" ∧
      ∃ widths lines, Table.Aligned relation widths lines := by
  intro relation
  have hrelation : relation.WellFormed := ⟨by decide, by decide⟩
  have haligned := (aligned_iff_inRange relation hrelation (by decide) (by decide)).1
  exact ⟨hrelation, by cbv, haligned.mpr ⟨by decide, by decide⟩⟩

/-- The relation with one text in its only column, `x`. -/
def Relation.ofText (text : String) : Relation :=
  ⟨[⟨"x", .string⟩], [[.text text]]⟩

/-- **There are relations without a table.**  The text of their only cell is one character longer
than what can be padded to. -/
theorem not_forall_aligned :
    ¬ ∀ relation : Relation, relation.WellFormed → relation.heading ≠ [] →
      (∀ name ∈ relation.heading.names, '\n' ∉ name.toList) →
      (∀ row ∈ relation.rows, ∀ cell ∈ row, '\n' ∉ cell.display.toList) →
        ∃ widths lines, Table.Aligned relation widths lines := by
  intro hall
  have hlength : (String.ofList (List.replicate (Table.maxWidth + 1) 'a')).length =
      Table.maxWidth + 1 := by
    rw [← String.length_toList, String.toList_ofList, List.length_replicate]
  have hnewline : '\n' ∉ (String.ofList (List.replicate (Table.maxWidth + 1) 'a')).toList := by
    intro hmem
    rw [String.toList_ofList] at hmem
    exact absurd (List.eq_of_mem_replicate hmem) (by decide)
  -- From here on the text must not be computed.
  generalize String.ofList (List.replicate (Table.maxWidth + 1) 'a') = text at hlength hnewline
  have hrelation : (Relation.ofText text).WellFormed :=
    ⟨List.nodup_singleton _, List.forall_mem_singleton.mpr rfl⟩
  obtain ⟨widths, lines, haligned⟩ := hall (Relation.ofText text) hrelation (List.cons_ne_nil _ _)
    (List.forall_mem_singleton.mpr (by decide))
    (List.forall_mem_singleton.mpr (List.forall_mem_singleton.mpr hnewline))
  have hrange := ((Table.table_eq_ok hrelation).mp haligned.table).1
  have hle : text.length ≤ Table.maxWidth :=
    hrange.cells [.text text] List.mem_cons_self (.text text) List.mem_cons_self
  rw [hlength] at hle
  exact Nat.not_succ_le_self _ hle

end RelationScript
