/-
# Parts of lines

The first tokens of a line are cut off whatever stands behind them, as long as it does not carry
the last of them on.  So a part of a line is scanned alike in another line, before any delimiter.

* `Scans` : the lexemes at the start of a line, and what they leave;
* `Lexes.exists_scans`, `Scans.lexes` : a line in two parts;
* `Scans.flush` : a part of a line in another one;
* `Text.IsTrimmed`, `Scans.isTrimmed` : the source text of a part begins and ends in a token.
-/
import RelationScript.Proofs.Token.Tiling

namespace RelationScript

open Token (Spells Stops)

/-! ## Source texts -/

namespace Lexeme

/-- The source text of a run of lexemes, with the blanks before them. -/
def source (lexemes : List Lexeme) : List Char :=
  lexemes.flatMap fun lexeme => lexeme.gap ++ lexeme.text

/-- A run of lexemes without the blanks before it. -/
def flush : List Lexeme → List Lexeme
  | [] => []
  | first :: more => ⟨first.token, [], first.text⟩ :: more

@[simp] theorem source_nil : source [] = [] := rfl

/-- A lexeme stands for its gap and its text. -/
@[simp] theorem source_cons (lexeme : Lexeme) (more : List Lexeme) :
    source (lexeme :: more) = lexeme.gap ++ (lexeme.text ++ source more) := by
  simp [source]

@[simp] theorem source_append (front back : List Lexeme) :
    source (front ++ back) = source front ++ source back :=
  List.flatMap_append

@[simp] theorem source_flush (lexemes : List Lexeme) :
    source (flush lexemes) = written lexemes := by
  cases lexemes <;> simp [source, flush, written]

@[simp] theorem written_flush (lexemes : List Lexeme) :
    written (flush lexemes) = written lexemes := by
  cases lexemes <;> rfl

@[simp] theorem map_token_flush (lexemes : List Lexeme) :
    (flush lexemes).map token = lexemes.map token := by
  cases lexemes <;> rfl

/-- Before what is written of a run stand the blanks before its first token. -/
theorem exists_source_eq {lexemes : List Lexeme}
    (h : ∀ lexeme ∈ lexemes, ∀ c ∈ lexeme.gap, Text.isBlank c = true) :
    ∃ gap, (∀ c ∈ gap, Text.isBlank c = true) ∧ source lexemes = gap ++ written lexemes := by
  cases lexemes with
  | nil => exact ⟨[], by simp, rfl⟩
  | cons first more => exact ⟨first.gap, h first List.mem_cons_self, source_cons first more⟩

end Lexeme

/-- Spans are counted on from the end of what stands before. -/
theorem spanned_append (offset : ℕ) (front back : List Lexeme) :
    Lexeme.spanned offset (front ++ back) =
      Lexeme.spanned offset front ++
        Lexeme.spanned (offset + (Lexeme.source front).length) back := by
  induction front generalizing offset with
  | nil => rfl
  | cons first front ih =>
    rw [List.cons_append, Lexeme.spanned, Lexeme.spanned, ih]
    simp [Nat.add_assoc]

/-! ## Lines in parts -/

/-- The characters `cs` begin with the lexemes, each of them spelled and not carried on, and `left`
comes behind them. -/
inductive Scans : List Char → List Lexeme → List Char → Prop
  | nil (left : List Char) : Scans left [] left
  | cons {token : Token} {gap text rest left : List Char} {more : List Lexeme}
      (hgap : ∀ c ∈ gap, Text.isBlank c = true) (hspells : Spells token text)
      (hstops : Stops token text rest) (hmore : Scans rest more left) :
      Scans (gap ++ (text ++ rest)) (⟨token, gap, text⟩ :: more) left

/-- The first lexemes of a line are at its start, and the others make up what they leave. -/
theorem Lexes.exists_scans {cs : List Char} {front back : List Lexeme}
    (h : Lexes cs (front ++ back)) (hback : back ≠ []) :
    ∃ rest, Scans cs front rest ∧ Lexes rest back := by
  induction front generalizing cs with
  | nil => exact ⟨cs, .nil cs, h⟩
  | cons first front ih =>
    generalize hall : first :: front ++ back = all at h
    cases h with
    | endOfLine hgap =>
      rw [List.cons_append, List.cons.injEq, List.append_eq_nil_iff] at hall
      exact absurd hall.2.2 hback
    | token hgap hspells hstops hmore =>
      obtain ⟨rfl, rfl⟩ := List.cons.inj hall
      obtain ⟨rest, hfront, hrest⟩ := ih hmore
      exact ⟨rest, .cons hgap hspells hstops hfront, hrest⟩

/-- The lexemes of a line stand for all of it. -/
theorem Lexes.eq_source {cs : List Char} {lexemes : List Lexeme} (h : Lexes cs lexemes) :
    cs = Lexeme.source lexemes := by
  induction h with
  | endOfLine hgap => simp
  | token hgap hspells hstops hmore ih => rw [Lexeme.source_cons, ← ih]

/-- Nothing but blanks stands between tokens. -/
theorem Lexes.isBlank_of_mem_gap {cs : List Char} {lexemes : List Lexeme} (h : Lexes cs lexemes) :
    ∀ lexeme ∈ lexemes, ∀ c ∈ lexeme.gap, Text.isBlank c = true := by
  induction h with
  | endOfLine hgap => exact List.forall_mem_singleton.mpr hgap
  | token hgap hspells hstops hmore ih => exact List.forall_mem_cons.mpr ⟨hgap, ih⟩

namespace Scans

variable {cs rest left : List Char} {front back lexemes : List Lexeme}

/-- What is scanned at the start and the lexemes behind it are the lexemes of the whole. -/
theorem lexes (h : Scans cs front rest) (hrest : Lexes rest back) : Lexes cs (front ++ back) := by
  induction h with
  | nil => exact hrest
  | cons hgap hspells hstops hmore ih => exact .token hgap hspells hstops (ih hrest)

/-- One scan can be gone on with by another. -/
theorem append (h : Scans cs front rest) (hrest : Scans rest back left) :
    Scans cs (front ++ back) left := by
  induction h with
  | nil => exact hrest
  | cons hgap hspells hstops hmore ih => exact .cons hgap hspells hstops (ih hrest)

/-- A token with no blanks before it. -/
theorem token {token : Token} {text : List Char} (hspells : Spells token text)
    (hstops : Stops token text rest) (h : Scans rest lexemes left) :
    Scans (text ++ rest) (⟨token, [], text⟩ :: lexemes) left :=
  @cons token [] text rest left lexemes (by simp) hspells hstops h

/-- A name is put before what is scanned, if nothing carries it on. -/
theorem name {name : String} (hname : Text.isName name = true)
    (hrest : ∀ c ∈ rest.head?, Text.isNameChar c = false) (h : Scans rest lexemes left) :
    Scans (name.toList ++ rest) (⟨.name name, [], name.toList⟩ :: lexemes) left :=
  token (.name hname) hrest h

/-- A symbol is put before what is scanned, if it stops there. -/
theorem symbol (token : Token) {text : List Char} (htext : token.symbol? = some text)
    (hstops : Stops token text rest) (h : Scans rest lexemes left) :
    Scans (text ++ rest) (⟨token, [], text⟩ :: lexemes) left :=
  Scans.token (.symbol htext) hstops h

/-- A space in front of lexemes belongs to the gap before the first. -/
theorem space {first : Lexeme} (h : Scans cs (first :: lexemes) left) :
    Scans (' ' :: cs) (⟨first.token, ' ' :: first.gap, first.text⟩ :: lexemes) left := by
  cases h with
  | cons hgap hspells hstops hmore =>
    exact cons (List.forall_mem_cons.mpr ⟨by decide, hgap⟩) hspells hstops hmore

/-- What is scanned stands at the start. -/
theorem eq_append (h : Scans cs lexemes rest) : cs = Lexeme.source lexemes ++ rest := by
  induction h with
  | nil => rfl
  | cons hgap hspells hstops hmore ih => simp [← ih]

/-- Each lexeme that is scanned spells its token. -/
theorem spells_of_mem (h : Scans cs lexemes rest) :
    ∀ lexeme ∈ lexemes, Spells lexeme.token lexeme.text := by
  induction h with
  | nil => simp
  | cons hgap hspells hstops hmore ih => exact List.forall_mem_cons.mpr ⟨hspells, ih⟩

/-- Whatever came behind them, the lexemes are found before a delimiter. -/
theorem before_delimiter (h : Scans cs lexemes rest) {c : Char}
    (hc : Token.isDelimiter c = true) (more : List Char) :
    Scans (Lexeme.source lexemes ++ c :: more) lexemes (c :: more) := by
  induction h with
  | nil => exact .nil _
  | cons hgap hspells hstops hmore ih =>
    rw [hmore.eq_append] at hstops
    rw [Lexeme.source_cons, List.append_assoc, List.append_assoc]
    exact .cons hgap hspells (hstops.of_append.append_delimiter hc more) ih

/-- **A part of a line is scanned alike elsewhere.**  Without the blanks before it, and before any
delimiter, it is cut into the same lexemes. -/
theorem flush (h : Scans cs lexemes rest) {c : Char} (hc : Token.isDelimiter c = true)
    (more : List Char) :
    Scans (Lexeme.written lexemes ++ c :: more) (Lexeme.flush lexemes) (c :: more) := by
  cases h with
  | nil => exact .nil _
  | cons hgap hspells hstops hmore =>
    rw [hmore.eq_append] at hstops
    rw [← Lexeme.source_flush, Lexeme.flush, Lexeme.source_cons, List.nil_append, List.append_assoc]
    exact token hspells (hstops.of_append.append_delimiter hc more) (hmore.before_delimiter hc more)

end Scans

/-! ## Texts without outer blanks -/

/-- The text is not empty, and no blank comes first or last in it. -/
structure Text.IsTrimmed (cs : List Char) : Prop where
  first : ∃ c ∈ cs.head?, Text.isBlank c = false
  last : ∃ c ∈ cs.getLast?, Text.isBlank c = false

/-- Trimmed texts with blanks between them are trimmed together. -/
theorem Text.IsTrimmed.append {front back : List Char} (hfront : Text.IsTrimmed front)
    (hback : Text.IsTrimmed back) (gap : List Char) : Text.IsTrimmed (front ++ (gap ++ back)) where
  first := by
    obtain ⟨c, hc, hblank⟩ := hfront.first
    exact ⟨c, by simp [Option.mem_def.mp hc], hblank⟩
  last := by
    obtain ⟨c, hc, hblank⟩ := hback.last
    exact ⟨c, by simp [Option.mem_def.mp hc], hblank⟩

/-- A text without blanks is trimmed. -/
theorem Text.isTrimmed_of_forall {cs : List Char} (hne : cs ≠ [])
    (h : ∀ c ∈ cs, Text.isBlank c = false) : Text.IsTrimmed cs where
  first := ⟨cs.head hne, List.head?_eq_some_head hne, h _ (List.head_mem hne)⟩
  last := ⟨cs.getLast hne, List.getLast?_eq_some_getLast hne, h _ (List.getLast_mem hne)⟩

/-- A number is made up of digits, at most one point and a sign. -/
theorem Token.IsNumeral.isTrimmed {text : List Char} (h : Token.IsNumeral text) :
    Text.IsTrimmed text := by
  have hunsigned : ∀ {cs : List Char}, Token.IsUnsigned cs →
      cs ≠ [] ∧ ∀ c ∈ cs, Text.isBlank c = false := by
    intro cs hcs
    cases hcs with
    | whole hdigits => exact ⟨hdigits.1, fun c hc => Text.isBlank_of_isDigit (hdigits.2 c hc)⟩
    | fraction hdigits hfraction =>
      refine ⟨by simp, fun c hc => ?_⟩
      rcases List.mem_append.mp hc with hc | hc
      · exact Text.isBlank_of_isDigit (hdigits.2 c hc)
      · rcases List.mem_cons.mp hc with rfl | hc
        · decide
        · exact Text.isBlank_of_isDigit (hfraction.2 c hc)
  cases h with
  | unsigned h => exact Text.isTrimmed_of_forall (hunsigned h).1 (hunsigned h).2
  | negative h =>
    refine Text.isTrimmed_of_forall (List.cons_ne_nil _ _) ?_
    exact List.forall_mem_cons.mpr ⟨by decide, (hunsigned h).2⟩

/-- A token begins and ends with characters that are no blanks. -/
theorem Token.Spells.isTrimmed {token : Token} {text : List Char} (h : Spells token text) :
    Text.IsTrimmed text := by
  cases h with
  | number hnumeral _ => exact hnumeral.isTrimmed
  | text => exact ⟨⟨'\x27', rfl, by decide⟩, ⟨'\x27', List.getLast?_concat, by decide⟩⟩
  | name hname =>
    obtain ⟨c, cs, hvalue, -, hall⟩ := Token.exists_cons_of_isName hname
    rw [hvalue]
    refine Text.isTrimmed_of_forall (List.cons_ne_nil c cs) fun d hd => ?_
    exact Text.isBlank_of_isNameChar (hall d hd)
  | symbol hsymbol =>
    obtain ⟨hne, hblank⟩ := Token.isBlank_of_mem_symbol hsymbol
    exact Text.isTrimmed_of_forall hne hblank

/-- What is written of a run of tokens begins with its first token and ends with its last. -/
theorem Scans.isTrimmed {cs rest : List Char} {lexemes : List Lexeme} (h : Scans cs lexemes rest)
    (hne : lexemes ≠ []) : Text.IsTrimmed (Lexeme.written lexemes) := by
  induction h with
  | nil => exact absurd rfl hne
  | @cons token gap text rest left more hgap hspells hstops hmore ih =>
    cases more with
    | nil => simpa [Lexeme.written] using hspells.isTrimmed
    | cons second more =>
      have hwritten : Lexeme.written (⟨token, gap, text⟩ :: second :: more) =
          text ++ (second.gap ++ Lexeme.written (second :: more)) := by
        simp [Lexeme.written]
      rw [hwritten]
      exact hspells.isTrimmed.append (ih (List.cons_ne_nil _ _)) second.gap

end RelationScript
