/-
# Scanning

A line is cut into lexemes from left to right.  Blanks before a token are skipped, and each
token is the longest that can be read at its place.

* `Token.scan` : the token at the start of a text;
* `Cursor.next` : one lexeme from a place in a line, and the place after it;
* `Cursor.lexemes` : all lexemes from a place to the end of the line.
-/
import RelationScript.Token.Basic
import RelationScript.Decimal.Reading
import RelationScript.Text.Blank
import RelationScript.Text.Name

namespace RelationScript

/-! ## Faults -/

/-- Why no token can be read. -/
inductive ScanCause where
  /-- A quoted text without its closing quote. -/
  | openText
  /-- A number that no decimal can hold. -/
  | badNumber (text : String) (fault : Decimal.ReadFault)
  /-- An exclamation mark without an equals sign. -/
  | loneExclamation
  /-- A hyphen before neither a digit nor a greater-than sign. -/
  | loneHyphen
  /-- A character that begins no token. -/
  | stray (char : Char)
  deriving DecidableEq

/-- The wording of a cause. -/
def ScanCause.message : ScanCause → String
  | openText => "Unterminated string: missing closing quote"
  | badNumber text fault => "Invalid number '" ++ text ++ "': " ++ fault.message
  | loneExclamation => "Unexpected '!' (did you mean '!='?)"
  | loneHyphen => "Unexpected '-' (did you mean '->'?)"
  | stray char => "Unexpected character '" ++ char.toString ++ "'"

/-- A cause and the position of the character at which the token would begin. -/
structure ScanFault where
  /-- Why no token can be read. -/
  cause : ScanCause
  /-- How many characters of the line come before it. -/
  position : Nat
  deriving DecidableEq

/-- The wording of a fault. -/
def ScanFault.message (fault : ScanFault) : String :=
  fault.cause.message ++ s!" at position {fault.position}"

/-! ## One token -/

/-- What is found at the start of a text: a token or the cause of its absence, the characters
used up, and those left. -/
structure Scanned where
  /-- The token, or why there is none. -/
  outcome : Except ScanCause Token
  /-- The characters used up. -/
  text : List Char
  /-- The characters left. -/
  rest : List Char

namespace Token

/-- Cut a run of digits, with a fraction if a point and a digit follow, off a text. -/
def splitNumber (cs : List Char) : List Char × List Char :=
  let whole := cs.takeWhile Char.isDigit
  match cs.dropWhile Char.isDigit with
  | '.' :: d :: rest =>
    if d.isDigit then
      (whole ++ '.' :: (d :: rest).takeWhile Char.isDigit, (d :: rest).dropWhile Char.isDigit)
    else
      (whole, '.' :: d :: rest)
  | rest => (whole, rest)

/-- The number that a text writes, as a token. -/
def ofNumber (text : List Char) : Except ScanCause Token :=
  match Decimal.read text with
  | .ok n => .ok (number n)
  | .error fault => .error (.badNumber (String.ofList text) fault)

/-- The number at the start of a text, whose sign is given apart. -/
def scanNumber (sign cs : List Char) : Scanned :=
  let (digits, rest) := splitNumber cs
  ⟨ofNumber (sign ++ digits), sign ++ digits, rest⟩

/-- The quoted text whose opening quote comes before `cs`. -/
def scanText (cs : List Char) : Scanned :=
  let content := cs.takeWhile (· != '\x27')
  match cs.dropWhile (· != '\x27') with
  | [] => ⟨.error .openText, '\x27' :: cs, []⟩
  | quote :: rest => ⟨.ok (text (String.ofList content)), '\x27' :: content ++ [quote], rest⟩

/-- The name at the start of a text. -/
def scanName (cs : List Char) : Scanned :=
  ⟨.ok (name (String.ofList (cs.takeWhile Text.isNameChar))), cs.takeWhile Text.isNameChar,
    cs.dropWhile Text.isNameChar⟩

/-- The token at the start of a text that does not start with a blank. -/
def scan : List Char → Scanned
  | [] => ⟨.ok endOfLine, [], []⟩
  | '&' :: cs => ⟨.ok (setOperator .intersection), ['&'], cs⟩
  | '|' :: cs => ⟨.ok (setOperator .union), ['|'], cs⟩
  | '\x5c' :: cs => ⟨.ok (setOperator .difference), ['\x5c'], cs⟩
  | '*' :: cs => ⟨.ok times, ['*'], cs⟩
  | '(' :: cs => ⟨.ok openParen, ['('], cs⟩
  | ')' :: cs => ⟨.ok closeParen, [')'], cs⟩
  | '[' :: cs => ⟨.ok openBracket, ['['], cs⟩
  | ']' :: cs => ⟨.ok closeBracket, [']'], cs⟩
  | ',' :: cs => ⟨.ok comma, [','], cs⟩
  | '.' :: cs => ⟨.ok dot, ['.'], cs⟩
  | '=' :: cs => ⟨.ok (comparator .equal), ['='], cs⟩
  | '<' :: '=' :: cs => ⟨.ok (comparator .lessEqual), ['<', '='], cs⟩
  | '<' :: cs => ⟨.ok (comparator .less), ['<'], cs⟩
  | '>' :: '=' :: cs => ⟨.ok (comparator .greaterEqual), ['>', '='], cs⟩
  | '>' :: cs => ⟨.ok (comparator .greater), ['>'], cs⟩
  | '!' :: '=' :: cs => ⟨.ok (comparator .notEqual), ['!', '='], cs⟩
  | '!' :: cs => ⟨.error .loneExclamation, [], '!' :: cs⟩
  | '-' :: '>' :: cs => ⟨.ok arrow, ['-', '>'], cs⟩
  | '-' :: cs =>
    if (cs.head?.any Char.isDigit) then scanNumber ['-'] cs
    else ⟨.error .loneHyphen, [], '-' :: cs⟩
  | '\x27' :: cs => scanText cs
  | c :: cs =>
    if Text.isNameStart c then scanName (c :: cs)
    else if c.isDigit then scanNumber [] (c :: cs)
    else ⟨.error (.stray c), [], c :: cs⟩

/-! ## What a token uses up -/

/-- Cutting a number off loses nothing. -/
theorem splitNumber_append (cs : List Char) : (splitNumber cs).1 ++ (splitNumber cs).2 = cs := by
  have hcut := List.takeWhile_append_dropWhile (p := Char.isDigit) (l := cs)
  unfold splitNumber
  split
  next d rest hrest =>
    split
    · have hfraction :=
        List.takeWhile_append_dropWhile (p := Char.isDigit) (l := d :: rest)
      rw [List.append_assoc, List.cons_append, hfraction, ← hrest, hcut]
    · rw [← hrest, hcut]
  next => exact hcut

/-- A number uses up its sign and digits. -/
theorem scanNumber_append (sign cs : List Char) :
    (scanNumber sign cs).text ++ (scanNumber sign cs).rest = sign ++ cs := by
  simp [scanNumber, splitNumber_append]

/-- A quoted text uses up its quotes and content. -/
theorem scanText_append (cs : List Char) :
    (scanText cs).text ++ (scanText cs).rest = '\x27' :: cs := by
  have hcut := List.takeWhile_append_dropWhile (p := (· != '\x27')) (l := cs)
  unfold scanText
  split
  next => simp
  next quote rest hrest => simp [← hrest, hcut]

/-- A name uses up its characters. -/
theorem scanName_append (cs : List Char) : (scanName cs).text ++ (scanName cs).rest = cs := by
  simp [scanName]

/-- **Tiling of one token.**  What is used up and what is left make up the text. -/
theorem scan_append (cs : List Char) : (scan cs).text ++ (scan cs).rest = cs := by
  unfold scan
  split
  any_goals rfl
  · split
    · rw [scanNumber_append]; rfl
    · rfl
  · exact scanText_append _
  · split
    · exact scanName_append _
    · split
      · rw [scanNumber_append]; rfl
      · rfl

/-- Digits at the start of a text are part of the number cut off. -/
theorem splitNumber_ne_nil {c : Char} (cs : List Char) (h : c.isDigit = true) :
    (splitNumber (c :: cs)).1 ≠ [] := by
  unfold splitNumber
  split
  · split <;> simp [h]
  · simp [h]

/-- A token other than the end of the line uses up at least one character. -/
theorem scan_text_ne_nil {cs : List Char} {token : Token} (h : (scan cs).outcome = .ok token)
    (htoken : token ≠ endOfLine) : (scan cs).text ≠ [] := by
  unfold scan at h ⊢
  split at h <;> simp_all
  · split at h <;> simp_all [scanNumber]
  · unfold scanText
    split <;> simp
  · split at h
    · next hc => simp [scanName, hc, Text.isNameChar_of_isNameStart hc]
    · split at h <;> simp_all [scanNumber, splitNumber_ne_nil]

/-- What a token leaves is no longer than the text it was read from. -/
theorem length_scan_rest_lt {cs : List Char} {token : Token} (h : (scan cs).outcome = .ok token)
    (htoken : token ≠ endOfLine) : (scan cs).rest.length < cs.length := by
  have hpos := List.length_pos_iff.mpr (scan_text_ne_nil h htoken)
  have hlength := congrArg List.length (scan_append cs)
  rw [List.length_append] at hlength
  omega

end Token

/-! ## Lexemes of a line -/

/-- A place in a line. -/
structure Cursor where
  /-- How many characters come before it. -/
  offset : Nat
  /-- The characters after it. -/
  rest : List Char

namespace Cursor

/-- The start of a line. -/
def ofLine (line : String) : Cursor :=
  ⟨0, line.toList⟩

/-- The next lexeme, and the place after it.  After a fault the place is that of the
offending character, or behind the number or text that was at fault. -/
def next (cursor : Cursor) : Except ScanFault Lexeme × Cursor :=
  let gap := cursor.rest.takeWhile Text.isBlank
  let scanned := Token.scan (cursor.rest.dropWhile Text.isBlank)
  let start := cursor.offset + gap.length
  let after : Cursor := ⟨start + scanned.text.length, scanned.rest⟩
  match scanned.outcome with
  | .ok token => (.ok ⟨token, gap, scanned.text⟩, after)
  | .error cause => (.error ⟨cause, start⟩, after)

/-- A lexeme other than the end of the line leaves less of the line. -/
theorem length_next_lt {cursor after : Cursor} {lexeme : Lexeme}
    (h : cursor.next = (.ok lexeme, after)) (htoken : lexeme.token ≠ .endOfLine) :
    after.rest.length < cursor.rest.length := by
  dsimp only [next] at h
  split at h
  next token htok =>
    simp only [Prod.mk.injEq, Except.ok.injEq] at h
    obtain ⟨rfl, rfl⟩ := h
    have hgap := congrArg List.length
      (List.takeWhile_append_dropWhile (p := Text.isBlank) (l := cursor.rest))
    rw [List.length_append] at hgap
    have hscan := Token.length_scan_rest_lt htok htoken
    simp only
    omega
  next => simp at h

/-- All lexemes from a place to the end of the line, the end included; or the first fault. -/
def lexemes (cursor : Cursor) : Except ScanFault (List Lexeme) :=
  match _h : cursor.next with
  | (.error fault, _) => .error fault
  | (.ok lexeme, after) =>
    if _hend : lexeme.token = .endOfLine then
      .ok [lexeme]
    else
      match after.lexemes with
      | .ok more => .ok (lexeme :: more)
      | .error fault => .error fault
termination_by cursor.rest.length
decreasing_by exact length_next_lt _h _hend

end Cursor

/-- The lexemes of a line. -/
def lexemesOf (line : String) : Except ScanFault (List Lexeme) :=
  (Cursor.ofLine line).lexemes

end RelationScript
