/-
# Tables

A relation as lines of text: its column names, a rule, its rows and a count of them.  Cells
are padded to the width of their column and separated by bars; blanks at the end of a line
are left out.  Padding has an upper limit of 16 bits, and there is no table of wider columns.

* `Table.widths` : the width of each column;
* `Table.pad` : a text padded to a width, if that is in range;
* `Relation.table` : one relation as a table;
* `Store.tables` : several relations, each under its name.
-/
import RelationScript.Store
import RelationScript.Text.Blank

namespace RelationScript

namespace Table

/-- The texts of a row's cells. -/
def cellTexts (row : Row) : List (List Char) :=
  row.map fun cell => cell.display.toList

/-- The texts of the column names. -/
def headingTexts (heading : Heading) : List (List Char) :=
  heading.map fun column => column.name.toList

/-- The width of each column: that of its longest text, the name included. -/
def widths (heading : List (List Char)) (rows : List (List (List Char))) : List Nat :=
  rows.foldl (fun widths row => List.zipWith max widths (row.map List.length))
    (heading.map List.length)

/-- The greatest width that a text can be padded to: formatting takes widths of 16 bits. -/
def maxWidth : Nat :=
  65535

/-- Why there is no table.  This is no fault that is told of: the program is aborted. -/
inductive Abort where
  /-- A column is wider than what can be padded to. -/
  | widthOutOfRange
  deriving DecidableEq

/-- The last words of the program. -/
def Abort.message : Abort → String
  | widthOutOfRange => "Formatting argument out of range"

/-- A text with spaces behind it up to a width. -/
def fill (width : Nat) (text : List Char) : List Char :=
  text ++ List.replicate (width - text.length) ' '

/-- A text padded to a width, which has to be in range even if the text is as wide. -/
def pad (width : Nat) (text : List Char) : Except Abort (List Char) :=
  if width ≤ maxWidth then .ok (fill width text) else .error .widthOutOfRange

/-- A line of the table: texts padded to their widths and separated by bars, without the blanks
at its end. -/
def line (widths : List Nat) (texts : List (List Char)) : Except Abort (List Char) := do
  let padded ← (widths.zip texts).mapM fun column => pad column.1 column.2
  return Text.trimEnd ([' ', '|', ' '].intercalate padded)

/-- The rule under the column names. -/
def rule (widths : List Nat) : List Char :=
  ['-', '+', '-'].intercalate (widths.map (List.replicate · '-'))

/-- The count of the rows. -/
def footer (count : Nat) : List Char :=
  '(' :: Nat.toDigits 10 count ++ (if count = 1 then " row)" else " rows)").toList

/-- All lines of the table of a relation. -/
def lines (relation : Relation) : Except Abort (List (List Char)) := do
  let heading := headingTexts relation.heading
  let rows := relation.rows.map cellTexts
  let columnWidths := widths heading rows
  let names ← line columnWidths heading
  let shown ← rows.mapM (line columnWidths)
  return names :: rule columnWidths :: shown ++ [footer relation.rows.length]

end Table

/-- The table of a relation; each line ends with a line feed. -/
def Relation.table (relation : Relation) : Except Table.Abort String :=
  (Table.lines relation).map fun lines => String.ofList (lines.flatMap (· ++ ['\n']))

/-- The tables of the chosen bindings, or of all when none are chosen, each under its name
and with an empty line between two. -/
def Store.tables (store : Store) (chosen : List String) : Except Table.Abort String := do
  let shown ← (store.showing chosen).mapM fun binding =>
    binding.2.table.map (binding.1 ++ ":\n" ++ ·)
  return "\n".intercalate shown

end RelationScript
