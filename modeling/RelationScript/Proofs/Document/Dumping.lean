/-
# Loading undoes dumping

A relation can be put down as a document: its columns by name and kind, and its rows as the JSON
of their cells.  The loader takes the document back, and what it makes of it is the relation
again, with each number in its normal form.

* `Json.readNumber?_numeral` : numerals, and so what decimals are written as, are numbers of JSON;
* `Cell.toJson_number` : numbers become numbers, in both branches with the same digits;
* `Cell.ofJson?_toJson`, `Row.ofJson?_toJson` : cells and rows come back in normal form;
* `ofJson_documentOf_eq_canonical` : and so does the relation.
-/
import RelationScript.Document
import RelationScript.Proofs.Calendar.Writing
import RelationScript.Proofs.Decimal.Numerals
import RelationScript.Proofs.Relation.Equality
import RelationScript.Proofs.Relation.WellFormed

namespace RelationScript

/-! ## Documents of relations -/

/-- A column as documents describe it. -/
def Column.document (column : Column) : Json :=
  .ofMembers [("name", .string column.name), ("type", .string column.kind.name)]

/-- A row as documents hold it. -/
def Row.document (row : Row) : Json :=
  .array (row.map Cell.toJson)

/-- A relation as documents hold it. -/
def Relation.document (relation : Relation) : Json :=
  .ofMembers [("schema", .array (relation.heading.map Column.document)),
    ("rows", .array (relation.rows.map Row.document))]

/-- The document of one relation under a name. -/
def Store.documentOf (name : String) (relation : Relation) : Json :=
  .ofMembers [(name, relation.document)]

/-! ## Numbers -/

namespace Json

/-- Digits are read up to the first character that is none. -/
theorem readDigits?_append {digits rest : List Char} (hdigits : Text.IsDigits digits)
    (hrest : ∀ c ∈ rest.head?, c.isDigit = false) :
    readDigits? (digits ++ rest) = some (digits, rest) := by
  unfold readDigits?
  rw [takeWhile_append_of_stop hdigits.2 hrest, dropWhile_append_of_stop hdigits.2 hrest]
  exact if_neg (by simpa using hdigits.1)

variable (n : Numeral)

/-- The whole part of a numeral is read up to its end. -/
theorem readWhole?_whole {rest : List Char} (hrest : ∀ c ∈ rest.head?, c.isDigit = false) :
    readWhole? (n.whole ++ rest) = some (n.whole, rest) := by
  rcases n.leading with hzero | hhead
  · rw [hzero]
    rfl
  · have hread := readDigits?_append n.isDigits_whole hrest
    obtain ⟨c, cs, hcons, -⟩ := n.isDigits_whole.exists_cons
    rw [hcons] at hread hhead ⊢
    rw [List.cons_append] at hread ⊢
    unfold readWhole?
    split
    next heq =>
      obtain ⟨rfl, -⟩ := List.cons.inj heq
      exact absurd rfl hhead
    next => exact hread

/-- The digits of a numeral are read to their end. -/
theorem readUnsigned?_digits (sign : List Char) :
    readUnsigned? sign n.digits = some (String.ofList (sign ++ n.digits), []) := by
  unfold Numeral.digits
  by_cases h : n.fraction = []
  · have hwhole := @readWhole?_whole n [] (by simp)
    rw [List.append_nil] at hwhole
    rw [if_pos h, List.append_nil]
    simp [readUnsigned?, hwhole, readFraction?, readExponent?]
  · have hpoint : ∀ c ∈ ('.' :: n.fraction).head?, c.isDigit = false := by
      rintro c ⟨⟩
      decide
    have hwhole := readWhole?_whole n hpoint
    have hfraction := @readDigits?_append _ [] ⟨h, n.isDigit_fraction⟩ (by simp)
    rw [List.append_nil] at hfraction
    rw [if_neg h]
    simp [readUnsigned?, hwhole, readFraction?, hfraction, readExponent?]

/-- **Numerals are numbers of JSON**, from the first character to the last. -/
theorem readNumber?_numeral : readNumber? n.chars = some (n.text, []) := by
  unfold Numeral.text Numeral.chars
  cases n.negative with
  | true =>
    rw [if_pos rfl, readNumber?]
    exact readUnsigned?_digits n ['-']
  | false =>
    have hread := readUnsigned?_digits n []
    obtain ⟨c, cs, hdigits, hc⟩ := n.isUnsigned_digits.exists_cons
    rw [hdigits] at hread
    rw [if_neg Bool.false_ne_true, hdigits]
    unfold readNumber?
    split
    next heq =>
      obtain ⟨rfl, -⟩ := List.cons.inj heq
      exact absurd hc (by decide)
    next => exact hread

theorem ofNumberText_text (d : Decimal) : ofNumberText d.text = .number d.text := by
  unfold ofNumberText
  rw [Decimal.toList_text, ← d.chars_numeral, readNumber?_numeral, d.text_numeral]

/-- The digits of an integer are those of the decimal in normal form. -/
theorem integerText_eq {d : Decimal} {i : ℤ} (h : d.integer? = some i) :
    integerText i = d.normalize.text := by
  unfold integerText Decimal.text
  rw [Decimal.chars_normalize_of_integer? h]

end Json

/-! ## Cells -/

namespace Cell

/-- **Numbers are dumped as numbers**: whether as an integer or as a decimal, a number is written
as its normal form is. -/
theorem toJson_number (d : Decimal) : (number d).toJson = .number d.normalize.text := by
  unfold toJson
  dsimp only
  split
  next i hi =>
    split
    · rw [Json.integerText_eq hi]
    · exact Json.ofNumberText_text d.normalize
  next => exact Json.ofNumberText_text d.normalize

/-- A cell that is dumped and loaded is the cell in its canonical form. -/
theorem ofJson?_toJson (cell : Cell) : ofJson? cell.kind cell.toJson = some cell.canonical := by
  cases cell with
  | number d =>
    have hread : Decimal.readAny? d.normalize.text.toList = some d.normalize := by
      rw [Decimal.toList_text]
      exact (Decimal.normal_normalize d).readAny?_chars
    rw [toJson_number, kind, ofJson?, hread]
    rfl
  | text s => rfl
  | date d =>
    rw [kind, toJson, ofJson?, Date.read?_text]
    rfl

theorem canonical_equal (cell : Cell) : cell.canonical.Equal cell := by
  cases cell with
  | number d => exact .number (Decimal.value_normalize d)
  | text s => exact .text s
  | date d => exact .date d

theorem kind_canonical (cell : Cell) : cell.canonical.kind = cell.kind := by
  cases cell <;> rfl

end Cell

/-! ## Rows -/

namespace Row

/-- Cells of the kinds of their columns come back one by one. -/
theorem ofJson?_toJson {heading : Heading} {row : Row} (h : kinds row = heading.kinds) :
    ofJson? heading (row.map Cell.toJson) = some (canonical row) := by
  induction heading generalizing row with
  | nil =>
    obtain rfl : row = [] := List.map_eq_nil_iff.mp h
    rfl
  | cons column heading ih =>
    cases row with
    | nil => simp [kinds, Heading.kinds] at h
    | cons cell row =>
      obtain ⟨hcell, hrow⟩ : cell.kind = column.kind ∧ kinds row = Heading.kinds heading := by
        simpa [kinds, Heading.kinds] using h
      rw [List.map_cons, ofJson?, ← hcell, Cell.ofJson?_toJson, ih hrow]
      rfl

/-- A dumped row is loaded in normal form. -/
theorem ofJson_document (relation : String) {heading : Heading} (index : ℕ) {row : Row}
    (h : kinds row = heading.kinds) :
    ofJson relation heading index row.document = .ok (canonical row) := by
  have hlength : (row.map Cell.toJson).length = heading.length := by
    rw [List.length_map]
    exact (Relation.kinds_eq_iff.mp h).1
  unfold ofJson document Json.items?
  dsimp only
  rw [if_neg (not_not_intro hlength), ofJson?_toJson h]

/-- Dumped rows are loaded in normal form, one by one. -/
theorem ofJsonItems_document (relation : String) {heading : Heading} (index : ℕ) {rows : List Row}
    (h : ∀ row ∈ rows, kinds row = heading.kinds) :
    ofJsonItems relation heading index (rows.map document) = .ok (rows.map canonical) := by
  induction rows generalizing index with
  | nil => rfl
  | cons row rows ih =>
    rw [List.forall_mem_cons] at h
    rw [List.map_cons, ofJsonItems, ofJson_document relation index h.1, ih (index + 1) h.2]
    rfl

theorem canonical_equal (row : Row) : Equal (canonical row) row := by
  rw [equal_iff]
  unfold canonical
  rw [List.map_map]
  refine List.map_congr_left fun cell _ => ?_
  exact Cell.equal_iff.mp cell.canonical_equal

end Row

/-! ## Relations -/

theorem Kind.ofName?_name (kind : Kind) : ofName? kind.name = some kind := by
  cases kind <;> decide

/-- The loader takes a column back that is called by a name. -/
theorem Column.ofJson_document (relation : String) {column : Column}
    (h : Text.isName column.name = true) : ofJson relation column.document = .ok column := by
  have hname : (column.document.member? "name").bind Json.string? = some column.name := rfl
  have hkind : (column.document.member? "type").bind Json.string? = some column.kind.name := rfl
  rw [ofJson, hname, hkind]
  dsimp only
  rw [if_pos h, Kind.ofName?_name]

/-- A dumped heading is loaded as it was. -/
theorem Heading.ofJson_document (name : String) {relation : Relation}
    (h : ∀ column ∈ relation.heading, Text.isName column.name = true) :
    Heading.ofJson name relation.document = .ok relation.heading := by
  have hschema : (relation.document.member? "schema").bind Json.items? =
      some (relation.heading.map Column.document) := rfl
  rw [Heading.ofJson, hschema]
  dsimp only
  rw [mapM_eq_ok, List.forall₂_map_left_iff, List.forall₂_same]
  exact fun column hcolumn => Column.ofJson_document name (h column hcolumn)

namespace Relation

/-- Numbers in normal form are of the same kind. -/
theorem WellFormed.canonical {relation : Relation} (h : relation.WellFormed) :
    relation.canonical.WellFormed := by
  refine ⟨h.nodup, fun row hrow => ?_⟩
  obtain ⟨original, horiginal, rfl⟩ := List.mem_map.mp hrow
  show Row.kinds (Row.canonical original) = relation.heading.kinds
  rw [Row.kinds, Row.canonical, List.map_map, ← h.kinds original horiginal]
  exact List.map_congr_left fun cell _ => cell.kind_canonical

/-- A relation is equal to its canonical form. -/
theorem canonical_equal (relation : Relation) : relation.canonical.Equal relation where
  heading := rfl
  rows := by
    show List.Forall₂ Row.Equal (relation.rows.map Row.canonical) relation.rows
    rw [List.forall₂_map_left_iff, List.forall₂_same]
    exact fun row _ => row.canonical_equal

theorem rowItems_document (name : String) (relation : Relation) :
    Json.rowItems name relation.document = .ok (relation.rows.map Row.document) := rfl

/-- The loader takes a relation back, with its numbers in normal form. -/
theorem ofJson_document (name : String) {relation : Relation} (h : relation.WellFormed)
    (hcolumns : ∀ column ∈ relation.heading, Text.isName column.name = true) :
    ofJson name relation.document = .ok relation.canonical := by
  have hcheck : relation.heading.check = .ok relation.heading :=
    Heading.check_eq_ok.mpr ⟨h.nodup, rfl⟩
  have hbuild : build relation.heading (relation.rows.map Row.canonical) = .ok relation.canonical :=
    build_eq_ok.mpr ⟨rfl, h.canonical⟩
  show (Heading.ofJson name relation.document >>= fun columns => _) = _
  refine bind_eq_ok.mpr ⟨_, Heading.ofJson_document name hcolumns, ?_⟩
  refine bind_eq_ok.mpr ⟨_, rowItems_document name relation, ?_⟩
  refine bind_eq_ok.mpr ⟨_, mapError_eq_ok.mpr hcheck, ?_⟩
  refine bind_eq_ok.mpr ⟨_, Row.ofJsonItems_document name 0 h.kinds, ?_⟩
  exact mapError_eq_ok.mpr hbuild

end Relation

/-- A document of one relation is loaded as the relation in normal form. -/
theorem Store.ofJson_documentOf {name : String} (hname : Text.isName name = true)
    {relation : Relation} (h : relation.WellFormed)
    (hcolumns : ∀ column ∈ relation.heading, Text.isName column.name = true) :
    Store.ofJson (Store.documentOf name relation) =
      .ok (Store.empty.bind name relation.canonical) := by
  show Store.ofMembers .empty [(name, relation.document)] = _
  rw [Store.ofMembers, if_pos hname]
  exact bind_eq_ok.mpr ⟨_, Relation.ofJson_document name h hcolumns, rfl⟩

/-- **Loading undoes dumping.**  The document of a well-formed relation, all of whose columns have
names, is loaded as a store that binds the relation and nothing else; texts and dates come back as
they are, and numbers in normal form, which is equal by value.  A number never becomes a string:
all decimals are written in a form that JSON takes for a number, and the loader for one of the same
value.  For an integer the digits are the same, whether it is written as one or as a decimal. -/
theorem ofJson_documentOf_eq_canonical :
    (∀ (name : String) (relation : Relation), Text.isName name = true → relation.WellFormed →
      (∀ column ∈ relation.heading, Text.isName column.name = true) →
        Store.ofJson (Store.documentOf name relation) =
            .ok (Store.empty.bind name relation.canonical) ∧
          relation.canonical.Equal relation) ∧
    (∀ d : Decimal, (Cell.number d).toJson = .number d.normalize.text ∧
      Json.ofNumberText d.normalize.text = .number d.normalize.text ∧
      ∃ loaded, Decimal.readAny? d.normalize.text.toList = some loaded ∧ loaded.value = d.value) ∧
    (∀ (d : Decimal) (i : ℤ), d.integer? = some i →
      Json.integerText i = d.normalize.text ∧ d.value = i) := by
  refine ⟨?_, ?_, ?_⟩
  · intro name relation hname h hcolumns
    exact ⟨Store.ofJson_documentOf hname h hcolumns, relation.canonical_equal⟩
  · intro d
    have hread : Decimal.readAny? d.normalize.text.toList = some d.normalize := by
      rw [Decimal.toList_text]
      exact (Decimal.normal_normalize d).readAny?_chars
    exact ⟨Cell.toJson_number d, Json.ofNumberText_text d.normalize, d.normalize, hread,
      Decimal.value_normalize d⟩
  · intro d i h
    exact ⟨Json.integerText_eq h, Decimal.value_of_integer? h⟩

/-- Numbers at the limits of 64 and 96 bits, with and without a fraction, and a zero with a sign,
beside dates of the first and the last year. -/
def Relation.limits : Relation :=
  ⟨[⟨"n", .numeric⟩, ⟨"day", .date⟩],
    [[.number ⟨true, 92233720368547758080, 1, by decide, by decide⟩,
        .date ⟨-262143, 1, 1, by decide⟩],
      [.number ⟨false, 9223372036854775808, 0, by decide, Decimal.zero_le_maxScale⟩,
        .date ⟨0, 2, 29, by decide⟩],
      [.number ⟨false, 79228162514264337593543950335, 28, by decide, Decimal.maxScale_le⟩,
        .date ⟨9999, 12, 31, by decide⟩],
      [.number ⟨true, 0, 28, Decimal.zero.mantissa_lt, Decimal.maxScale_le⟩,
        .date ⟨262142, 12, 31, by decide⟩]]⟩

/-- The relation of limits, its rows as JSON, and what is loaded of its document. -/
theorem ofJson_documentOf_limits :
    (Json.array (Relation.limits.rows.map Row.document)).compact =
        "[[-9223372036854775808,\"-262143-01-01\"],[9223372036854775808,\"0000-02-29\"]," ++
          "[7.9228162514264337593543950335,\"9999-12-31\"],[0,\"+262142-12-31\"]]" ∧
      Store.ofJson (Store.documentOf "T" Relation.limits) =
        .ok (Store.empty.bind "T" Relation.limits.canonical) := by
  have hwellFormed : Relation.limits.WellFormed := ⟨by decide, by decide⟩
  have hload := (ofJson_documentOf_eq_canonical.1 "T" Relation.limits (by decide) hwellFormed
    (by decide)).1
  exact ⟨by decide +kernel, hload⟩

end RelationScript
