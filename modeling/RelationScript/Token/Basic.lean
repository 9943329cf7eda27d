/-
# Tokens

The words of a script line: numbers, quoted texts, names, operators and punctuation.

* `Token.display` : a token as messages name it;
* `Lexeme` : a token with the text that writes it and the blanks before;
* `Lexeme.written` : the source text of a run of lexemes.
-/
import RelationScript.Comparison
import RelationScript.SetOperator

namespace RelationScript

/-- A word of a script line. -/
inductive Token where
  | number (value : Decimal)
  | text (value : String)
  | name (value : String)
  | setOperator (operator : SetOperator)
  | times
  | arrow
  | comparator (comparator : Comparator)
  | openParen
  | closeParen
  | openBracket
  | closeBracket
  | comma
  | dot
  /-- What follows the last word of a line. -/
  | endOfLine
  deriving DecidableEq

namespace Token

/-- A token as messages name it. -/
def display : Token → String
  | number n => "number " ++ n.text
  | text s => "string '" ++ s ++ "'"
  | name n => "identifier '" ++ n ++ "'"
  | setOperator operator => "'" ++ operator.symbol.toString ++ "'"
  | times => "'*'"
  | arrow => "'->'"
  | comparator c => "'" ++ c.symbol ++ "'"
  | openParen => "'('"
  | closeParen => "')'"
  | openBracket => "'['"
  | closeBracket => "']'"
  | comma => "','"
  | dot => "'.'"
  | endOfLine => "end of line"

/-- Whether a token compares. -/
def isComparator : Token → Bool
  | comparator _ => true
  | _ => false

end Token

/-- A token in its place. -/
structure Lexeme where
  /-- The token. -/
  token : Token
  /-- The blanks before it. -/
  gap : List Char
  /-- The characters that write it. -/
  text : List Char
  deriving DecidableEq

/-- The source text from the first lexeme of a run to its last, without the blanks before. -/
def Lexeme.written : List Lexeme → List Char
  | [] => []
  | first :: more => first.text ++ more.flatMap fun lexeme => lexeme.gap ++ lexeme.text

end RelationScript
