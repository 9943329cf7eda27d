/-
# Reading JSON

JSON text as RFC 8259 has it.  Nothing but blanks may come before and after the value;
strings hold no raw control characters, and escapes of surrogates come in pairs.  What else a
kind of document fixes is its profile: how deeply arrays and objects may be nested, and a key
under which an object writes a number as a string.

* `Json.readString?`, `Json.readNumber?` : strings and numbers at the start of a text;
* `Json.readQuotedNumber?` : the rest of an object that writes a number as a string;
* `Json.read?` : the value that a text writes.
-/
import RelationScript.Json.Basic

namespace RelationScript.Json

/-! ## Blanks and strings -/

/-- The four blanks of JSON. -/
def isBlank (c : Char) : Bool :=
  c == ' ' || c == '\t' || c == '\n' || c == '\r'

/-- The text without the blanks at its start. -/
def skipBlanks (cs : List Char) : List Char :=
  cs.dropWhile isBlank

/-- The value of a hexadecimal digit. -/
def hexValue? (c : Char) : Option Nat :=
  if c.isDigit then some (c.toNat - 0x30)
  else if 'a' ≤ c && c ≤ 'f' then some (c.toNat - 0x57)
  else if 'A' ≤ c && c ≤ 'F' then some (c.toNat - 0x37)
  else none

/-- The value of four hexadecimal digits. -/
def hexUnit? (a b c d : Char) : Option Nat := do
  let high := (← hexValue? a) * 16 + (← hexValue? b)
  let low := (← hexValue? c) * 16 + (← hexValue? d)
  return high * 256 + low

/-- The character of a code unit that is no surrogate. -/
def charOfUnit? (unit : Nat) : Option Char :=
  if 0xD800 ≤ unit && unit ≤ 0xDFFF then none else some (Char.ofNat unit)

/-- The character of a pair of surrogates. -/
def charOfPair? (high low : Nat) : Option Char :=
  if 0xD800 ≤ high && high ≤ 0xDBFF && 0xDC00 ≤ low && low ≤ 0xDFFF then
    some (Char.ofNat (0x10000 + (high - 0xD800) * 0x400 + (low - 0xDC00)))
  else
    none

/-- The character that a single-letter escape stands for. -/
def charOfEscape? (c : Char) : Option Char :=
  match c with
  | '\x22' => some '\x22'
  | '\x5c' => some '\x5c'
  | '/' => some '/'
  | 'b' => some '\x08'
  | 'f' => some '\x0c'
  | 'n' => some '\n'
  | 'r' => some '\r'
  | 't' => some '\t'
  | _ => none

/-- The rest of a string, behind its opening quote: the characters up to the closing quote,
put in front of which are those already `read` in reverse, and the text after it. -/
def readString? (read : List Char) : List Char → Option (String × List Char)
  | [] => none
  | '\x22' :: rest => some (String.ofList read.reverse, rest)
  | '\x5c' :: 'u' :: a :: b :: c :: d :: '\x5c' :: 'u' :: e :: f :: g :: h :: rest =>
    match hexUnit? a b c d with
    | none => none
    | some unit =>
      match charOfUnit? unit with
      | some char => readString? (char :: read) ('\x5c' :: 'u' :: e :: f :: g :: h :: rest)
      | none =>
        match (hexUnit? e f g h).bind (charOfPair? unit) with
        | some char => readString? (char :: read) rest
        | none => none
  | '\x5c' :: 'u' :: a :: b :: c :: d :: rest =>
    match (hexUnit? a b c d).bind charOfUnit? with
    | some char => readString? (char :: read) rest
    | none => none
  | '\x5c' :: c :: rest =>
    match charOfEscape? c with
    | some char => readString? (char :: read) rest
    | none => none
  | c :: rest => if c.toNat < 0x20 then none else readString? (c :: read) rest

/-! ## Numbers -/

/-- One digit or more at the start of a text. -/
def readDigits? (cs : List Char) : Option (List Char × List Char) :=
  let digits := cs.takeWhile Char.isDigit
  if digits.isEmpty then none else some (digits, cs.dropWhile Char.isDigit)

/-- The whole part of a number: a zero, or digits that do not begin with one. -/
def readWhole? : List Char → Option (List Char × List Char)
  | '0' :: rest => some (['0'], rest)
  | cs => readDigits? cs

/-- The fraction of a number, if it has one. -/
def readFraction? : List Char → Option (List Char × List Char)
  | '.' :: rest => (readDigits? rest).map fun (digits, more) => ('.' :: digits, more)
  | cs => some ([], cs)

/-- The exponent of a number, if it has one. -/
def readExponent? : List Char → Option (List Char × List Char)
  | [] => some ([], [])
  | c :: rest =>
    if c == 'e' || c == 'E' then
      match rest with
      | '+' :: more => (readDigits? more).map fun (digits, more) => (c :: '+' :: digits, more)
      | '-' :: more => (readDigits? more).map fun (digits, more) => (c :: '-' :: digits, more)
      | more => (readDigits? more).map fun (digits, more) => (c :: digits, more)
    else
      some ([], c :: rest)

/-- The number at the start of a text, behind its sign. -/
def readUnsigned? (sign cs : List Char) : Option (String × List Char) := do
  let (whole, rest) ← readWhole? cs
  let (fraction, rest) ← readFraction? rest
  let (exponent, rest) ← readExponent? rest
  return (String.ofList (sign ++ whole ++ fraction ++ exponent), rest)

/-- The number at the start of a text. -/
def readNumber? : List Char → Option (String × List Char)
  | '-' :: rest => readUnsigned? ['-'] rest
  | cs => readUnsigned? [] cs

/-! ## Progress -/

/-- Skipping blanks leaves no more than there was. -/
theorem length_skipBlanks_le (cs : List Char) : (skipBlanks cs).length ≤ cs.length :=
  (List.dropWhile_suffix _).length_le

/-- What follows the first character that is not blank is shorter than the text. -/
theorem length_lt_of_skipBlanks {cs rest : List Char} {c : Char}
    (h : skipBlanks cs = c :: rest) : rest.length < cs.length := by
  have hle := length_skipBlanks_le cs
  rw [h, List.length_cons] at hle
  omega

/-- A string uses up at least its closing quote. -/
theorem length_lt_of_readString? {read cs rest : List Char} {s : String}
    (h : readString? read cs = some (s, rest)) : rest.length < cs.length := by
  fun_induction readString? read cs <;> simp_all <;> omega

/-- Digits use up at least one character. -/
theorem length_lt_of_readDigits? {cs digits rest : List Char}
    (h : readDigits? cs = some (digits, rest)) : rest.length < cs.length := by
  unfold readDigits? at h
  have hcut := congrArg List.length
    (List.takeWhile_append_dropWhile (p := Char.isDigit) (l := cs))
  rw [List.length_append] at hcut
  dsimp only at h
  split at h
  · cases h
  · next hne =>
    simp only [Option.some.injEq, Prod.mk.injEq] at h
    have hpos : 0 < (cs.takeWhile Char.isDigit).length := by
      rw [List.length_pos_iff]
      simpa using hne
    rw [← h.2]
    omega

/-- The whole part of a number uses up at least one character. -/
theorem length_lt_of_readWhole? {cs digits rest : List Char}
    (h : readWhole? cs = some (digits, rest)) : rest.length < cs.length := by
  unfold readWhole? at h
  split at h
  · simp_all
  · exact length_lt_of_readDigits? h

/-- A fraction leaves no more than there was. -/
theorem length_le_of_readFraction? {cs digits rest : List Char}
    (h : readFraction? cs = some (digits, rest)) : rest.length ≤ cs.length := by
  unfold readFraction? at h
  split at h
  · obtain ⟨⟨_, _⟩, hdigits, hrest⟩ := Option.map_eq_some_iff.mp h
    have hlt := length_lt_of_readDigits? hdigits
    simp_all
    omega
  · simp_all

/-- An exponent leaves no more than there was. -/
theorem length_le_of_readExponent? {cs digits rest : List Char}
    (h : readExponent? cs = some (digits, rest)) : rest.length ≤ cs.length := by
  unfold readExponent? at h
  split at h
  · simp_all
  · split at h
    · split at h <;>
      · obtain ⟨⟨_, _⟩, hdigits, hrest⟩ := Option.map_eq_some_iff.mp h
        have hlt := length_lt_of_readDigits? hdigits
        simp_all
        omega
    · simp_all

/-- A number uses up at least one character. -/
theorem length_lt_of_readNumber? {cs rest : List Char} {text : String}
    (h : readNumber? cs = some (text, rest)) : rest.length < cs.length := by
  have hunsigned : ∀ {sign cs : List Char}, readUnsigned? sign cs = some (text, rest) →
      rest.length < cs.length := by
    intro sign cs h
    simp only [readUnsigned?, bind, Option.bind_eq_some_iff, pure, Option.some.injEq,
      Prod.mk.injEq] at h
    obtain ⟨⟨_, _⟩, hwhole, ⟨_, _⟩, hfraction, ⟨_, _⟩, hexponent, -, rfl⟩ := h
    have h1 := length_lt_of_readWhole? hwhole
    have h2 := length_le_of_readFraction? hfraction
    have h3 := length_le_of_readExponent? hexponent
    dsimp only at h1 h2 h3 ⊢
    omega
  unfold readNumber? at h
  split at h
  · have hlt := hunsigned h
    simp only [List.length_cons]
    omega
  · exact hunsigned h

/-! ## Values -/

/-- A key and the colon after it. -/
def readKey? (cs : List Char) : Option (String × List Char) :=
  match skipBlanks cs with
  | '\x22' :: rest =>
    match readString? [] rest with
    | some (key, more) =>
      match skipBlanks more with
      | ':' :: after => some (key, after)
      | _ => none
    | none => none
  | _ => none

/-- A key uses up at least one character. -/
theorem length_lt_of_readKey? {cs rest : List Char} {key : String}
    (h : readKey? cs = some (key, rest)) : rest.length < cs.length := by
  unfold readKey? at h
  split at h
  next after hstart =>
    split at h
    next found more hstring =>
      split at h
      next hcolon =>
        have h1 := length_lt_of_skipBlanks hstart
        have h2 := length_lt_of_readString? hstring
        have h3 := length_lt_of_skipBlanks hcolon
        simp only [Option.some.injEq, Prod.mk.injEq] at h
        rw [← h.2]
        omega
      next => cases h
    next => cases h
  next => cases h

/-- The rest of an object that writes a number as a string: a string whose characters are a
number from the first to the last, and the end of the object. -/
def readQuotedNumber? (cs : List Char) : Option (String × List Char) :=
  match skipBlanks cs with
  | '\x22' :: rest =>
    match readString? [] rest with
    | some (content, more) =>
      match readNumber? content.toList, skipBlanks more with
      | some (text, []), '\x7d' :: after => some (text, after)
      | _, _ => none
    | none => none
  | _ => none

/-- The rest of an object that writes a number as a string uses up at least one character. -/
theorem length_lt_of_readQuotedNumber? {cs rest : List Char} {text : String}
    (h : readQuotedNumber? cs = some (text, rest)) : rest.length < cs.length := by
  unfold readQuotedNumber? at h
  split at h
  next after hstart =>
    split at h
    next content more hstring =>
      split at h
      next hclose =>
        have h1 := length_lt_of_skipBlanks hstart
        have h2 := length_lt_of_readString? hstring
        have h3 := length_lt_of_skipBlanks hclose
        simp only [Option.some.injEq, Prod.mk.injEq] at h
        rw [← h.2]
        omega
      next => cases h
    next => cases h
  next => cases h

/-- What a kind of document fixes about its JSON. -/
structure Profile where
  /-- How many arrays and objects may be open at a time. -/
  depth : Nat
  /-- The first key of an object that writes a number as a string. -/
  numberKey : String

/-- An array or object that is still open. -/
inductive Frame where
  /-- An array with the items so far, the last one first. -/
  | inArray (items : List Json)
  /-- An object with the members so far, the last one first, and the key of the next one. -/
  | inObject (members : List (String × Json)) (key : String)

mutual

/-- Read a value and all that follows it, inside the frames `stack`.  An object whose first key
is that of the profile writes a number as a string. -/
def readValue? (profile : Profile) (stack : List Frame) (cs : List Char) : Option Json :=
  match _h : skipBlanks cs with
  | '[' :: rest =>
    if profile.depth ≤ stack.length then none
    else
      match _hitem : skipBlanks rest with
      | ']' :: more => readRest? profile stack (array []) more
      | more => readValue? profile (.inArray [] :: stack) more
  | '\x7b' :: rest =>
    if profile.depth ≤ stack.length then none
    else
      match _hitem : skipBlanks rest with
      | '\x7d' :: more => readRest? profile stack (object []) more
      | more =>
        match _hkey : readKey? more with
        | some (key, after) =>
          if key = profile.numberKey then
            match _hquoted : readQuotedNumber? after with
            | some (text, more) => readRest? profile stack (number text) more
            | none => none
          else
            readValue? profile (.inObject [] key :: stack) after
        | none => none
  | '\x22' :: rest =>
    match _hstring : readString? [] rest with
    | some (s, more) => readRest? profile stack (string s) more
    | none => none
  | 'n' :: 'u' :: 'l' :: 'l' :: rest => readRest? profile stack null rest
  | 't' :: 'r' :: 'u' :: 'e' :: rest => readRest? profile stack (bool true) rest
  | 'f' :: 'a' :: 'l' :: 's' :: 'e' :: rest => readRest? profile stack (bool false) rest
  | rest =>
    match _hnumber : readNumber? rest with
    | some (text, more) => readRest? profile stack (number text) more
    | none => none
termination_by cs.length
decreasing_by
  · have hopen := length_lt_of_skipBlanks _h
    have hclose := length_lt_of_skipBlanks _hitem
    omega
  · have hopen := length_lt_of_skipBlanks _h
    have hitem := length_skipBlanks_le rest
    rw [_hitem] at hitem
    omega
  · have hopen := length_lt_of_skipBlanks _h
    have hclose := length_lt_of_skipBlanks _hitem
    omega
  · have hopen := length_lt_of_skipBlanks _h
    have hitem := length_skipBlanks_le rest
    have hkey := length_lt_of_readKey? _hkey
    have hquoted := length_lt_of_readQuotedNumber? _hquoted
    rw [_hitem] at hitem
    omega
  · have hopen := length_lt_of_skipBlanks _h
    have hitem := length_skipBlanks_le rest
    have hkey := length_lt_of_readKey? _hkey
    rw [_hitem] at hitem
    omega
  · have hopen := length_lt_of_skipBlanks _h
    have hstring := length_lt_of_readString? _hstring
    omega
  · have hword := length_lt_of_skipBlanks _h
    simp only [List.length_cons] at hword
    omega
  · have hword := length_lt_of_skipBlanks _h
    simp only [List.length_cons] at hword
    omega
  · have hword := length_lt_of_skipBlanks _h
    simp only [List.length_cons] at hword
    omega
  · have hstart := length_skipBlanks_le cs
    have hnumber := length_lt_of_readNumber? _hnumber
    rw [_h] at hstart
    omega

/-- Read what follows a value inside the frames `stack`: outside of all frames nothing may
follow. -/
def readRest? (profile : Profile) (stack : List Frame) (value : Json) (cs : List Char) :
    Option Json :=
  match stack, _h : skipBlanks cs with
  | [], [] => some value
  | .inArray items :: outer, ',' :: rest =>
    readValue? profile (.inArray (value :: items) :: outer) rest
  | .inArray items :: outer, ']' :: rest =>
    readRest? profile outer (array (value :: items).reverse) rest
  | .inObject members key :: outer, ',' :: rest =>
    match _hkey : readKey? rest with
    | some (next, more) =>
      readValue? profile (.inObject ((key, value) :: members) next :: outer) more
    | none => none
  | .inObject members key :: outer, '\x7d' :: rest =>
    readRest? profile outer (ofMembers ((key, value) :: members).reverse) rest
  | _, _ => none
termination_by cs.length
decreasing_by
  · exact length_lt_of_skipBlanks _h
  · exact length_lt_of_skipBlanks _h
  · have hcomma := length_lt_of_skipBlanks _h
    have hkey := length_lt_of_readKey? _hkey
    omega
  · exact length_lt_of_skipBlanks _h

end

/-- The value that a text writes, in documents of a profile. -/
def read? (profile : Profile) (text : String) : Option Json :=
  readValue? profile [] text.toList

end RelationScript.Json
