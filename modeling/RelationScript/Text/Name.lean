/-
# Names

A name is an ASCII letter or underscore, followed by ASCII letters, digits and underscores.

* `Text.isName` : whether a whole text is a name.
-/

namespace RelationScript.Text

/-- Whether a name may begin with a character. -/
def isNameStart (c : Char) : Bool :=
  c.isAlpha || c == '_'

/-- Whether a name may go on with a character. -/
def isNameChar (c : Char) : Bool :=
  c.isAlphanum || c == '_'

/-- A character that may begin a name may stand in it. -/
theorem isNameChar_of_isNameStart {c : Char} (h : isNameStart c = true) : isNameChar c = true := by
  simp only [isNameStart, isNameChar, Char.isAlphanum, Bool.or_eq_true] at h ⊢
  exact h.imp_left Or.inl

/-- Whether a text is a name from its first character to its last. -/
def isName (s : String) : Bool :=
  match s.toList with
  | [] => false
  | c :: cs => isNameStart c && cs.all isNameChar

end RelationScript.Text
