/-
# Spans

Where the tokens of a line sit: each covers a range of its characters.

* `Span.text` : the characters of a line that a span covers;
* `Lexeme.spanned` : the tokens of a run of lexemes with their spans;
* `spannedOf` : the tokens of a line with their spans.
-/
import RelationScript.Token.Scan

namespace RelationScript

/-- A range of the characters of a line. -/
structure Span where
  /-- How many characters come before the range. -/
  start : Nat
  /-- How many characters come before the end of the range. -/
  stop : Nat
  deriving DecidableEq

/-- The characters of a line that a span covers. -/
def Span.text (span : Span) (line : List Char) : List Char :=
  (line.take span.stop).drop span.start

/-- The tokens of a run of lexemes with their spans, when so many characters come before the
first gap. -/
def Lexeme.spanned (offset : Nat) : List Lexeme → List (Token × Span)
  | [] => []
  | lexeme :: more =>
    let start := offset + lexeme.gap.length
    let stop := start + lexeme.text.length
    (lexeme.token, ⟨start, stop⟩) :: spanned stop more

/-- The tokens of a line with their spans, the end of the line included; or the first fault. -/
def spannedOf (line : String) : Except ScanFault (List (Token × Span)) :=
  (lexemesOf line).map (Lexeme.spanned 0)

end RelationScript
