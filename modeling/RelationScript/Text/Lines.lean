/-
# Lines

* `Text.splitLines` : the lines of a text, without their ends.
-/

namespace RelationScript.Text

/-- The lines of a text.  A line ends with a line feed, a carriage return before which belongs
to the end; the last line need not have one. -/
def splitLines : List Char → List (List Char)
  | [] => []
  | '\r' :: '\n' :: rest => [] :: splitLines rest
  | '\n' :: rest => [] :: splitLines rest
  | c :: rest =>
    match splitLines rest with
    | [] => [[c]]
    | line :: lines => (c :: line) :: lines

/-- The lines of a string. -/
def linesOf (s : String) : List String :=
  (splitLines s.toList).map String.ofList

end RelationScript.Text
