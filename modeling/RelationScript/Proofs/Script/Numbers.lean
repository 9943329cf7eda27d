/-
# Numbers in documents and scripts

A numeral writes the same number wherever it stands.  In a document it is the number of a cell, and
in a script it is one token and the right-hand side of comparisons; a cell is written as a numeral
again.  None of this rounds a number that decimals have room for.

* `Numeral.spannedOf_text` : a numeral alone on a line;
* `Relation.WellFormed.select_number` : the rows with a given number;
* `ofLine_comparison` : a line that compares a column with a numeral;
* `numeral_exact` : a numeral in documents and scripts.
-/
import RelationScript.Proofs.Document.Dumping
import RelationScript.Proofs.Query.Writing
import RelationScript.Proofs.Relation.Columns
import RelationScript.Proofs.Relation.Trichotomy
import RelationScript.Proofs.Script.Runs

namespace RelationScript

open Token (Spells)

/-! ## Numerals as tokens -/

theorem Numeral.spells {n : Numeral} {d : Decimal} (h : Decimal.read n.chars = .ok d) :
    Spells (.number d) n.chars :=
  .number n.isNumeral_chars h

/-- Alone on a line a numeral is one token. -/
theorem Numeral.spannedOf_text {n : Numeral} {d : Decimal} (h : Decimal.read n.chars = .ok d) :
    spannedOf n.text =
      .ok [(.number d, ⟨0, n.text.length⟩), (.endOfLine, ⟨n.text.length, n.text.length⟩)] := by
  have hscans := Scans.token (n.spells h) (Token.stops_nil _ _) (.nil [])
  have hlexes := hscans.lexes (.endOfLine (by simp))
  rw [List.append_nil] at hlexes
  refine spannedOf_eq_ok.mpr ⟨_, n.toList_text ▸ hlexes, ?_⟩
  rw [← String.length_toList, n.toList_text]
  simp [Lexeme.spanned]

/-! ## Rows with a number -/

/-- Whether the cell at a position is a number of the given value. -/
def Row.hasNumber (index : ℕ) (value : ℚ) (row : Row) : Bool :=
  match row[index]? with
  | some (.number d) => d.value = value
  | _ => false

namespace Relation

/-- Compared for equality with a number, a row is kept just if it has the number. -/
theorem keeps_number (index : ℕ) (d : Decimal) :
    keeps index .equal (.constant (.number d)) = Row.hasNumber index d.value := by
  funext row
  unfold keeps Row.hasNumber Side.cell?
  rcases row[index]? with _ | cell
  · rfl
  · cases cell with
    | number e =>
      show Comparator.equal.holds (e.compareValue d) = decide (e.value = d.value)
      have hequal : compare e.value d.value = .eq ↔ e.value = d.value := compare_eq_iff_eq
      rw [Decimal.compareValue_eq, Bool.eq_iff_iff, decide_eq_true_iff, ← hequal]
      exact Ordering.isEq_iff_eq_eq
    | text s => rfl
    | date day => rfl

/-- A selection by a number of a numeric column has the rows with that number. -/
theorem WellFormed.select_number {relation : Relation} (h : relation.WellFormed) {index : ℕ}
    {column : Column} (hcolumn : relation.heading[index]? = some column)
    (hkind : column.kind = .numeric) (d : Decimal) :
    relation.select column.name .equal (.literal (.number d)) =
      .ok ⟨relation.heading, relation.rows.filter (Row.hasNumber index d.value)⟩ := by
  have hfind := Heading.find_eq_ok_of_getElem? h.nodup hcolumn
  have hright : resolve relation.heading column (.literal (.number d)) =
      .ok (.constant (.number d)) := by
    rw [resolve_literal_eq_ok, hkind]
    exact ⟨.number d, rfl, rfl⟩
  apply select_eq_ok_of_keeps hfind hright
  intro row _
  rw [keeps_number]

end Relation

/-! ## Lines with a comparison -/

/-- A line that compares a column with a numeral is the selection by its number. -/
theorem ofLine_comparison {name target first : String} {more : List String}
    (hname : Text.isName name = true) (hall : ∀ part ∈ first :: more, Text.isName part = true)
    (htarget : Text.isName target = true) {n : Numeral} {d : Decimal}
    (hread : Decimal.read n.chars = .ok d) :
    ∃ text, Statement.ofLine
        (name ++ "[" ++ (".".intercalate (first :: more) ++ " = " ++ n.text) ++ "] -> " ++ target) =
      .ok ⟨.select (.named name) ⟨.ofPath first more, .equal, .literal (.number d)⟩ text,
        target⟩ := by
  -- From the closing bracket to the start of the condition, one token after the other.
  have hstops : Token.Stops (.number d) n.chars [']'] :=
    (Token.stops_nil _ _).append_delimiter (by decide) []
  have hnumber := (Scans.token (n.spells hread) hstops (.nil [']'])).space
  have hcomparator := (Scans.symbol (.comparator .equal) rfl trivial hnumber).space
  have hspace : ∀ c ∈ (' ' :: (Comparator.equal.symbol.toList ++ ' ' :: (n.chars ++ [']']))).head?,
      Text.isNameChar c = false := by
    rintro c ⟨⟩
    decide
  obtain ⟨used, hpath, htokens⟩ := exists_scans_path hall hspace
  have hscans := hpath.append hcomparator
  have hline : (".".intercalate (first :: more) ++ " = " ++ n.text).toList ++ [']'] =
      (".".intercalate (first :: more)).toList ++
        (' ' :: (Comparator.equal.symbol.toList ++ ' ' :: (n.chars ++ [']']))) := by
    simp [Comparator.symbol]
  rw [← hline] at hscans
  have hbody := Grammar.IsBody.condition (Grammar.isColumn_ofPath first more) .equal (.number d)
  have hstatement := @ofLine_of_scans _ _ _ _
    (.condition ⟨.ofPath first more, .equal, .literal (.number d)⟩) hscans rfl
    (by simpa [htokens] using hbody) name target hname htarget
  exact ⟨_, hstatement⟩

/-! ## Numbers in documents and scripts -/

/-- A line that compares a numeric column with a numeral binds the rows with its number. -/
theorem Script.execute_comparison {store : Store} (options : Options) {name target : String}
    (hname : Text.isName name = true) (htarget : Text.isName target = true) {relation : Relation}
    (hfound : store.find? name = some relation) (hrelation : relation.WellFormed) {index : ℕ}
    {column : Column} (hcolumn : relation.heading[index]? = some column)
    (hpath : IsPath column.name) (hkind : column.kind = .numeric) {n : Numeral} {d : Decimal}
    (hread : Decimal.read n.chars = .ok d) :
    execute options store (name ++ "[" ++ (column.name ++ " = " ++ n.text) ++ "] -> " ++ target) =
      .ok (some target, store.bind target
        ⟨relation.heading, relation.rows.filter (Row.hasNumber index d.value)⟩) := by
  obtain ⟨first, more, hall, hpath⟩ := hpath
  have hselect := hrelation.select_number hcolumn hkind d
  rw [hpath] at hselect ⊢
  obtain ⟨text, hline⟩ := ofLine_comparison hname hall htarget hread
  rw [execute_eq_ok]
  refine Or.inr ⟨?_, _, _, hline, ?_, rfl, rfl⟩
  · simp only [String.append_assoc]
    exact isSkipped_of_isName hname _
  · rw [Query.evaluate, Query.evaluate, hfound]
    refine bind_eq_ok.mpr ⟨relation, rfl, mapError_eq_ok.mpr ?_⟩
    rw [ColumnRef.columnName_ofPath]
    exact hselect

/-- **Numerals are exact everywhere.**  Take any numeral, however many digits it has, of a number
that is a whole number of at most 96 bits divided by a power of ten up to the 28th.  In a document
the number of the cell is exactly that one, and so is the number of what the cell is written as.
Alone on a line the numeral is one token with that number, and the comparison of a numeric column
with it keeps the rows whose cell has that number, and no others. -/
theorem numeral_exact {n : Numeral} {m : ℤ} {s : ℕ} (hm : |m| < 2 ^ 96) (hs : s ≤ 28)
    (hvalue : n.value = m / 10 ^ s) :
    ∃ d : Decimal, d.value = n.value ∧
      Json.readNumber? n.text.toList = some (n.text, []) ∧
      Cell.ofJson? .numeric (.number n.text) = some (.number d) ∧
      (∃ written : Numeral, (Cell.number d).toJson = .number written.text ∧
        written.value = n.value) ∧
      spannedOf n.text =
        .ok [(.number d, ⟨0, n.text.length⟩), (.endOfLine, ⟨n.text.length, n.text.length⟩)] ∧
      ∀ (options : Options) (store : Store) (name target : String) (relation : Relation)
        (index : ℕ) (column : Column), Text.isName name = true → Text.isName target = true →
        store.find? name = some relation → relation.WellFormed →
        relation.heading[index]? = some column → IsPath column.name → column.kind = .numeric →
          Script.execute options store
              (name ++ "[" ++ (column.name ++ " = " ++ n.text) ++ "] -> " ++ target) =
            .ok (some target, store.bind target
              ⟨relation.heading, relation.rows.filter (Row.hasNumber index n.value)⟩) := by
  -- A decimal has room for the number, so the numeral is read as one with the same number.
  obtain ⟨e, he⟩ := Decimal.exists_value_eq hm hs
  obtain ⟨d, hread, hexact⟩ := Numeral.exists_read (hvalue.trans he.symm)
  refine ⟨d, hexact, ?_, ?_, ⟨d.normalize.numeral, ?_, ?_⟩, n.spannedOf_text hread, ?_⟩
  · rw [n.toList_text]
    exact Json.readNumber?_numeral n
  · rw [Cell.ofJson?, n.toList_text, Decimal.readAny?_of_plain hread]
    rfl
  · rw [Cell.toJson_number, Decimal.text_numeral]
  · rw [Decimal.value_numeral, Decimal.value_normalize, hexact]
  · intro options store name target relation index column hname htarget hfound hrelation hcolumn
      hpath hkind
    rw [← hexact]
    exact Script.execute_comparison options hname htarget hfound hrelation hcolumn hpath hkind hread

/-- The largest mantissa with the largest scale, below zero and with two more zeros at its end. -/
theorem numeral_exact_of_trailingZeros :
    ∃ (n : Numeral) (d e : Decimal) (store : Store),
      n.text = "-7.922816251426433759354395033500" ∧
      |(-79228162514264337593543950335 : ℤ)| < 2 ^ 96 ∧
      n.value = (-79228162514264337593543950335 : ℤ) / 10 ^ 28 ∧ d.value = n.value ∧
      Cell.ofJson? .numeric (.number n.text) = some (.number d) ∧
      spannedOf n.text =
        .ok [(.number d, ⟨0, n.text.length⟩), (.endOfLine, ⟨n.text.length, n.text.length⟩)] ∧
      store.find? "A" = some ⟨[⟨"B.x", .numeric⟩], [[.number Decimal.zero], [.number e]]⟩ ∧
      Script.execute {} store ("A" ++ "[" ++ ("B.x" ++ " = " ++ n.text) ++ "] -> " ++ "T") =
        .ok (some "T", store.bind "T" ⟨[⟨"B.x", .numeric⟩], [[.number e]]⟩) := by
  let n : Numeral := ⟨true, ['7'],
    ['9', '2', '2', '8', '1', '6', '2', '5', '1', '4', '2', '6', '4', '3', '3', '7', '5', '9', '3',
      '5', '4', '3', '9', '5', '0', '3', '3', '5', '0', '0'],
    ⟨List.cons_ne_nil _ _, List.all_eq_true.mp rfl⟩, Or.inr (by decide), List.all_eq_true.mp rfl⟩
  let e : Decimal := ⟨true, 79228162514264337593543950335, 28, by decide, by decide⟩
  let relation : Relation := ⟨[⟨"B.x", .numeric⟩], [[.number Decimal.zero], [.number e]]⟩
  let store := Store.empty.bind "A" relation
  have hfound : store.find? "A" = some relation := (Store.find?_bind _ "A" "A" _).trans (if_pos rfl)
  have hm : |(-79228162514264337593543950335 : ℤ)| < 2 ^ 96 := by decide
  have hvalue : n.value = (-79228162514264337593543950335 : ℤ) / 10 ^ 28 := by
    have hmagnitude : n.magnitude = 7922816251426433759354395033500 := by decide
    unfold Numeral.value
    rw [hmagnitude]
    show (-(7922816251426433759354395033500 : ℕ) : ℤ) / (10 ^ 30 : ℚ) = _
    norm_num
  obtain ⟨d, hexact, -, hjson, -, hspanned, hselect⟩ := numeral_exact hm (Nat.le_refl 28) hvalue
  have hexecute := hselect {} store "A" "T" relation 0 ⟨"B.x", .numeric⟩ (by decide) (by decide)
    hfound ⟨by decide, by decide⟩ rfl ⟨"B", ["x"], by decide, by decide⟩ rfl
  have hkept : relation.rows.filter (Row.hasNumber 0 n.value) = [[.number e]] := by
    have hzero : Row.hasNumber 0 n.value [.number Decimal.zero] = false := by
      rw [hvalue]
      show decide (Decimal.value Decimal.zero = _) = false
      rw [decide_eq_false_iff_not]
      norm_num [Decimal.value, Decimal.signedMantissa, Decimal.zero]
    have hlast : Row.hasNumber 0 n.value [.number e] = true := by
      rw [hvalue]
      show decide (Decimal.value e = _) = true
      rw [decide_eq_true_iff]
      rfl
    show List.filter _ [_, _] = _
    rw [List.filter_cons_of_neg (by rw [hzero]; exact Bool.false_ne_true),
      List.filter_cons_of_pos hlast, List.filter_nil]
  rw [hkept] at hexecute
  exact ⟨n, d, e, store, by decide, hm, hvalue, hexact, hjson, hspanned, hfound,
    hexecute⟩

end RelationScript
