/-
# Writing JSON

A JSON value as text, either on one line or laid out over lines.

* `Json.compact` : no blanks at all;
* `Json.pretty` : one item or member a line, two spaces deeper than what holds it.
-/
import RelationScript.Json.Basic

namespace RelationScript.Json

/-! ## Strings -/

/-- Quotes, backslashes and control characters are escaped, all else stands as it is. -/
def escapeChar (c : Char) : List Char :=
  match c with
  | '\x22' => ['\x5c', '\x22']
  | '\x5c' => ['\x5c', '\x5c']
  | '\x08' => ['\x5c', 'b']
  | '\x0c' => ['\x5c', 'f']
  | '\n' => ['\x5c', 'n']
  | '\r' => ['\x5c', 'r']
  | '\t' => ['\x5c', 't']
  | _ =>
    if c.toNat < 0x20 then
      ['\x5c', 'u', '0', '0', Nat.digitChar (c.toNat / 16), Nat.digitChar (c.toNat % 16)]
    else
      [c]

/-- A string between quotes. -/
def quoted (s : String) : String :=
  String.ofList ('\x22' :: s.toList.flatMap escapeChar ++ ['\x22'])

/-! ## One line -/

mutual

/-- The value on one line without blanks. -/
def compact : Json → String
  | null => "null"
  | bool true => "true"
  | bool false => "false"
  | number text => text
  | string s => quoted s
  | array items => "[" ++ ",".intercalate (compactItems items) ++ "]"
  | object members => "\x7b" ++ ",".intercalate (compactMembers members) ++ "\x7d"

/-- Each of the items on one line. -/
def compactItems : List Json → List String
  | [] => []
  | item :: items => item.compact :: compactItems items

/-- Each of the members on one line. -/
def compactMembers : List (String × Json) → List String
  | [] => []
  | (key, value) :: members => (quoted key ++ ":" ++ value.compact) :: compactMembers members

end

/-! ## Several lines -/

/-- Parts between brackets, one a line; nothing stands between the brackets if there are no
parts. -/
def block (indent opening closing : String) (parts : List String) : String :=
  if parts.isEmpty then
    opening ++ closing
  else
    opening ++ "\n" ++ ",\n".intercalate (parts.map (indent ++ "  " ++ ·)) ++ "\n" ++ indent ++
      closing

mutual

/-- The value over several lines, behind the given indentation. -/
def prettyFrom (indent : String) : Json → String
  | null => "null"
  | bool true => "true"
  | bool false => "false"
  | number text => text
  | string s => quoted s
  | array items => block indent "[" "]" (prettyItems (indent ++ "  ") items)
  | object members => block indent "\x7b" "\x7d" (prettyMembers (indent ++ "  ") members)

/-- Each of the items over several lines. -/
def prettyItems (indent : String) : List Json → List String
  | [] => []
  | item :: items => item.prettyFrom indent :: prettyItems indent items

/-- Each of the members over several lines. -/
def prettyMembers (indent : String) : List (String × Json) → List String
  | [] => []
  | (key, value) :: members =>
    (quoted key ++ ": " ++ value.prettyFrom indent) :: prettyMembers indent members

end

/-- The value over several lines. -/
def pretty (json : Json) : String :=
  json.prettyFrom ""

end RelationScript.Json
