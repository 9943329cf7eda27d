/-
# Case folding of keywords

Keywords are ASCII words read without regard to case.  A character other than an ASCII
capital can fold to an ASCII letter too: the kelvin sign is the one Unicode has, and its
lower case is `k`.

* `Text.fold` : the lower case of a text, exact wherever the result is ASCII.
-/

namespace RelationScript.Text

/-- Lower case of a character.  Characters whose lower case is not ASCII stay as they are,
since none of them can be part of a keyword. -/
def foldChar (c : Char) : Char :=
  if c = '\u212A' then 'k' else c.toLower

/-- Lower case of a text, character by character. -/
def fold (s : String) : String :=
  String.ofList (s.toList.map foldChar)

end RelationScript.Text
