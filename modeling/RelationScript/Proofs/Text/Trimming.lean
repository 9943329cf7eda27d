/-
# Trimming

Trimming takes a text apart into what is left of it and the blanks around.

* `Text.exists_eq_trimEnd_append`, `Text.getElem?_of_trim` : where the trimmed text stands;
* `Text.trimEnd_append`, `Text.drop_trimEnd` : the end of a text that is put together or cut.
-/
import Mathlib
import RelationScript.Text.Blank

namespace RelationScript.Text

/-- A text is its trimmed front with blanks behind it. -/
theorem exists_eq_trimEnd_append (cs : List Char) :
    ∃ blanks, (∀ c ∈ blanks, isBlank c = true) ∧ cs = trimEnd cs ++ blanks := by
  refine ⟨(cs.reverse.takeWhile isBlank).reverse, fun c hc => ?_, ?_⟩
  · exact List.mem_takeWhile_imp (List.mem_reverse.mp hc)
  · rw [trimEnd, ← List.reverse_append, List.takeWhile_append_dropWhile, List.reverse_reverse]

/-- Only the last part of a text is trimmed, unless nothing is left of it. -/
theorem trimEnd_append (front rest : List Char) :
    trimEnd (front ++ rest) = if trimEnd rest = [] then trimEnd front else front ++ trimEnd rest := by
  simp only [trimEnd, List.reverse_append, List.dropWhile_append, List.isEmpty_iff,
    List.reverse_eq_nil_iff]
  split
  · rfl
  · rw [List.reverse_append, List.reverse_reverse]

/-- Trimming leaves nothing of a text of blanks, and of no other. -/
theorem trimEnd_eq_nil_iff {cs : List Char} : trimEnd cs = [] ↔ ∀ c ∈ cs, isBlank c = true :=
  List.rdropWhile_eq_nil_iff

/-- Blanks behind a text make no difference once it is trimmed. -/
theorem trimEnd_append_of_blank {blanks : List Char} (cs : List Char)
    (h : ∀ c ∈ blanks, isBlank c = true) : trimEnd (cs ++ blanks) = trimEnd cs := by
  rw [trimEnd_append, if_pos (trimEnd_eq_nil_iff.mpr h)]

theorem length_trimEnd_le (cs : List Char) : (trimEnd cs).length ≤ cs.length :=
  (List.rdropWhile_prefix isBlank cs).length_le

/-- Trimming the end of a text and cutting its start do not interfere. -/
theorem drop_trimEnd (n : ℕ) (cs : List Char) : (trimEnd cs).drop n = trimEnd (cs.drop n) := by
  by_cases hn : n ≤ cs.length
  · have hfront : (cs.take n).length = n := List.length_take_of_le hn
    have hcut : trimEnd cs = trimEnd (cs.take n ++ cs.drop n) := by rw [List.take_append_drop]
    rw [hcut, trimEnd_append]
    split
    next hblank =>
      have hlength := length_trimEnd_le (cs.take n)
      rw [hblank, List.drop_eq_nil_of_le (by omega)]
    next => exact List.drop_left' hfront
  · have hlength := length_trimEnd_le cs
    rw [List.drop_eq_nil_of_le (by omega), List.drop_eq_nil_of_le (by omega)]
    rfl

/-- The trimmed text stands behind the blanks before it. -/
theorem getElem?_of_trim {cs : List Char} {index : ℕ} (h : index < (trim cs).length) :
    cs[(cs.takeWhile isBlank).length + index]? = (trim cs)[index]? := by
  obtain ⟨blanks, -, hstart⟩ := exists_eq_trimEnd_append (trimStart cs)
  have hcut := List.takeWhile_append_dropWhile (p := isBlank) (l := cs)
  calc cs[(cs.takeWhile isBlank).length + index]?
      = (cs.takeWhile isBlank ++ trimStart cs)[(cs.takeWhile isBlank).length
          + index]? := by rw [trimStart, hcut]
    _ = (trimStart cs)[index]? := by
        rw [List.getElem?_append_right (Nat.le_add_right _ _), Nat.add_sub_cancel_left]
    _ = (trim cs ++ blanks)[index]? := by rw [hstart]; rfl
    _ = (trim cs)[index]? := List.getElem?_append_left h

end RelationScript.Text
