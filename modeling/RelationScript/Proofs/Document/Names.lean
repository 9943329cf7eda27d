/-
# Names in documents and in scripts

The loader checks a whole text, and the scanner goes on from a first character as long as others
carry a name on.  All the same they have one set of names, so what documents call relations and
columns can be written in lines, and what lines can write can be loaded.

* `Text.namePattern` : the names as a language, `[A-Za-z_][A-Za-z0-9_]*`;
* `NamesAgree` : what is a name for the loader, for the scanner and in statements;
* `namesAgree` : they agree on all texts.
-/
import RelationScript.Proofs.Document.Dumping
import RelationScript.Proofs.Document.Loading
import RelationScript.Proofs.Script.Addressing

namespace RelationScript

open Json (IsMember RelationFault)
open scoped Computability

/-! ## Names as a language -/

namespace Text

/-- The character lies in one of the ranges, their ends included. -/
def InRanges (ranges : List (Char × Char)) (c : Char) : Prop :=
  ∃ range ∈ ranges, range.1 ≤ c ∧ c ≤ range.2

/-- The texts of one character that lies in one of the ranges. -/
def oneOf (ranges : List (Char × Char)) : Language Char :=
  {cs | ∃ c, InRanges ranges c ∧ cs = [c]}

/-- The texts that `[A-Za-z_][A-Za-z0-9_]*` matches from their first character to their last. -/
def namePattern : Language Char :=
  oneOf [('A', 'Z'), ('a', 'z'), ('_', '_')] *
    (oneOf [('A', 'Z'), ('a', 'z'), ('0', '9'), ('_', '_')])∗

variable {ranges : List (Char × Char)} {c : Char} {cs : List Char}

theorem inRanges_cons {range : Char × Char} :
    InRanges (range :: ranges) c ↔ (range.1 ≤ c ∧ c ≤ range.2) ∨ InRanges ranges c := by
  simp [InRanges]

theorem not_inRanges_nil : ¬ InRanges [] c := by
  simp [InRanges]

theorem inRanges_singleton {d : Char} : InRanges [(d, d)] c ↔ c = d := by
  rw [inRanges_cons, or_iff_left not_inRanges_nil, and_comm, le_antisymm_iff]

/-- A first character from given ranges is followed by a word of the other language. -/
theorem mem_oneOf_mul {language : Language Char} :
    cs ∈ oneOf ranges * language ↔
      ∃ c more, cs = c :: more ∧ InRanges ranges c ∧ more ∈ language := by
  rw [Language.mem_mul]
  constructor
  · rintro ⟨_, ⟨c, hc, rfl⟩, more, hmore, rfl⟩
    exact ⟨c, more, rfl, hc, hmore⟩
  · rintro ⟨c, more, rfl, hc, hmore⟩
    exact ⟨[c], ⟨c, hc, rfl⟩, more, hmore, rfl⟩

/-- The words over given ranges are those with each character in them. -/
theorem mem_kstar_oneOf : cs ∈ (oneOf ranges)∗ ↔ ∀ c ∈ cs, InRanges ranges c := by
  rw [Language.mem_kstar]
  constructor
  · rintro ⟨parts, rfl, hparts⟩ c hc
    obtain ⟨part, hpart, hmem⟩ := List.mem_flatten.mp hc
    obtain ⟨d, hd, rfl⟩ := hparts part hpart
    rwa [List.mem_singleton.mp hmem]
  · intro h
    refine ⟨cs.map fun c => [c], (List.flatMap_singleton' cs).symm, fun part hpart => ?_⟩
    obtain ⟨c, hc, rfl⟩ := List.mem_map.mp hpart
    exact ⟨c, h c hc, rfl⟩

/-- Names start with a letter or an underscore. -/
theorem isNameStart_iff_inRanges :
    isNameStart c = true ↔ InRanges [('A', 'Z'), ('a', 'z'), ('_', '_')] c := by
  rw [inRanges_cons, inRanges_cons, inRanges_singleton, ← or_assoc]
  simp only [isNameStart, Char.isAlpha, Char.isUpper, Char.isLower, Bool.or_eq_true,
    Bool.and_eq_true, decide_eq_true_eq, beq_iff_eq]
  exact Iff.rfl

/-- Names go on with letters, digits and underscores. -/
theorem isNameChar_iff_inRanges :
    isNameChar c = true ↔ InRanges [('A', 'Z'), ('a', 'z'), ('0', '9'), ('_', '_')] c := by
  rw [inRanges_cons, inRanges_cons, inRanges_cons, inRanges_singleton, ← or_assoc, ← or_assoc]
  simp only [isNameChar, Char.isAlphanum, Char.isAlpha, Char.isUpper, Char.isLower, Char.isDigit,
    Bool.or_eq_true, Bool.and_eq_true, decide_eq_true_eq, beq_iff_eq]
  exact Iff.rfl

/-- **The check of names accepts what the pattern matches.** -/
theorem isName_iff_mem_namePattern {s : String} :
    isName s = true ↔ s.toList ∈ namePattern := by
  rw [namePattern, mem_oneOf_mul, isName]
  cases s.toList with
  | nil => simp
  | cons c cs =>
    rw [Bool.and_eq_true, List.all_eq_true, isNameStart_iff_inRanges]
    simp only [isNameChar_iff_inRanges, ← mem_kstar_oneOf]
    constructor
    · rintro ⟨hc, hcs⟩
      exact ⟨c, cs, rfl, hc, hcs⟩
    · rintro ⟨d, more, hsame, hd, hmore⟩
      obtain ⟨rfl, rfl⟩ := List.cons.inj hsame
      exact ⟨hd, hmore⟩

end Text

/-! ## Names in lines -/

/-- The scanner takes a name for one token, from its first character to its last. -/
theorem spannedOf_of_isName {s : String} (h : Text.isName s = true) :
    spannedOf s =
      .ok [(.name s, ⟨0, s.length⟩), (.endOfLine, ⟨s.length, s.length⟩)] := by
  have hscans : Scans s.toList [⟨.name s, [], s.toList⟩] [] := by
    simpa using Scans.name h (by simp) (.nil [])
  refine spannedOf_eq_ok.mpr ⟨_, hscans.lexes (.endOfLine (by simp)), ?_⟩
  simp [Lexeme.spanned, String.length_toList]

/-- What the scanner takes for a name is a name. -/
theorem isName_of_mem_spannedOf {line value : String} {items : List (Token × Span)} {span : Span}
    (h : spannedOf line = .ok items) (hvalue : (.name value, span) ∈ items) :
    Text.isName value = true := by
  obtain ⟨lexemes, hlexes, rfl⟩ := spannedOf_eq_ok.mp h
  refine isName_of_mem_lexemes (lexemes_of_lexes hlexes 0) ?_
  rw [← map_fst_spanned 0]
  exact List.mem_map_of_mem hvalue

/-! ## Names in documents -/

/-- The body of a relation is never rejected for the name of the relation. -/
theorem Json.RelationFault.ne_badRelationName {name other : String} {body : Json}
    {fault : LoadFault} (h : RelationFault name body fault) : fault ≠ .badRelationName other := by
  rintro rfl
  cases h with
  | column _ _ hbad => cases hbad
  | row _ _ _ hbad => cases hbad

/-- A document is rejected for the name of a relation if that is none, and nothing before it is at
fault. -/
theorem Store.ofJson_eq_badRelationName {s : String} {members : List (String × Json)} :
    Store.ofJson (.object members) = .error (.badRelationName s) ↔ Text.isName s = false ∧
      ∃ before body after, members = before ++ (s, body) :: after ∧
        ∀ other ∈ before, IsMember other.1 other.2 := by
  rw [Store.ofJson_eq_error]
  constructor
  · rintro ⟨before, ⟨name, body⟩, after, hmembers, hbefore, hfault⟩
    cases hfault with
    | name hname => exact ⟨hname, before, body, after, hmembers, hbefore⟩
    | body _ hbody => exact absurd rfl hbody.ne_badRelationName
  · rintro ⟨hname, before, body, after, hmembers, hbefore⟩
    exact ⟨before, (s, body), after, hmembers, hbefore, .name hname⟩

/-- A column is rejected for its name if that is a string, no name, and beside a type. -/
theorem Column.ofJson_eq_badColumnName {s relation : String} {json : Json} :
    Column.ofJson relation json = .error (.badColumnName s) ↔ Text.isName s = false ∧
      json.member? "name" = some (.string s) ∧
        ∃ keyword, json.member? "type" = some (.string keyword) := by
  rw [Column.ofJson_eq_error]
  constructor
  · intro h
    cases h with
    | name hname hkeyword hisName => exact ⟨hisName, hname, _, hkeyword⟩
  · rintro ⟨hisName, hname, keyword, hkeyword⟩
    exact .name hname hkeyword hisName

/-- Relations and columns of a document are called by names. -/
theorem isName_of_ofJson {json : Json} {store : Store} (h : Store.ofJson json = .ok store)
    {name : String} {relation : Relation} (hfound : store.find? name = some relation) :
    Text.isName name = true ∧ ∀ column ∈ relation.heading, Text.isName column.name = true := by
  have hcolumns : store.All fun relation =>
      ∀ column ∈ relation.heading, Text.isName column.name = true :=
    Store.forall_of_ofJson Store.All.empty (fun hstore _ hrelation =>
      hstore.bind fun _ => (Relation.ofJson_eq_ok.mp hrelation).heading.isName) h
  exact ⟨(Store.addressable_of_ofJson h name relation hfound).1, hcolumns name relation hfound⟩

/-- A name can be that of a relation and that of a column of it. -/
theorem exists_ofJson_of_isName {s : String} (h : Text.isName s = true) :
    ∃ json store relation, Store.ofJson json = .ok store ∧ store.find? s = some relation ∧
      s ∈ relation.heading.names := by
  have hwellFormed : (Relation.mk [⟨s, .string⟩] []).WellFormed :=
    ⟨List.nodup_singleton s, fun _ hrow => absurd hrow List.not_mem_nil⟩
  have hload := Store.ofJson_documentOf h hwellFormed (List.forall_mem_singleton.mpr h)
  exact ⟨_, _, _, hload, (Store.find?_bind _ s s _).trans (if_pos rfl), List.mem_singleton_self s⟩

/-! ## Agreement -/

/-- What holds of a text exactly if it is a name, in a document and in a script. -/
structure NamesAgree (s : String) : Prop where
  /-- The pattern matches the text. -/
  pattern : Text.isName s = true ↔ s.toList ∈ Text.namePattern
  /-- The scanner takes the text for one name, from its first character to its last. -/
  scanned : Text.isName s = true ↔
    spannedOf s = .ok [(.name s, ⟨0, s.length⟩), (.endOfLine, ⟨s.length, s.length⟩)]
  /-- The scanner finds it as a name somewhere in a line. -/
  found : Text.isName s = true ↔
    ∃ line items span, spannedOf line = .ok items ∧ (.name s, span) ∈ items
  /-- A statement calls a relation, a column and what it binds so. -/
  stated : Text.isName s = true ↔ ∃ line statement text, Statement.ofLine line = .ok statement ∧
    statement.query = .project (.named s) [.ofPath s []] text ∧ statement.target = s
  /-- A relation can be loaded under it. -/
  relation : Text.isName s = true ↔ ∃ json store relation, Store.ofJson json = .ok store ∧
    store.find? s = some relation
  /-- A relation can be loaded with a column of this name. -/
  column : Text.isName s = true ↔ ∃ json store name relation, Store.ofJson json = .ok store ∧
    store.find? name = some relation ∧ s ∈ relation.heading.names
  /-- If it is no name, a document is rejected for it as soon as a relation is called so. -/
  badRelation : ∀ members, Store.ofJson (.object members) = .error (.badRelationName s) ↔
    Text.isName s = false ∧ ∃ before body after, members = before ++ (s, body) :: after ∧
      ∀ other ∈ before, IsMember other.1 other.2
  /-- So it is as soon as a column is called so. -/
  badColumn : ∀ name json, Column.ofJson name json = .error (.badColumnName s) ↔
    Text.isName s = false ∧ json.member? "name" = some (.string s) ∧
      ∃ keyword, json.member? "type" = some (.string keyword)

/-- **Documents and scripts have the same names.**  The loader accepts a text as a name if and only if
the scanner takes it for one, and both have the names of the pattern.  So all names that can be loaded
can be written in lines, and all names that can be written can be loaded. -/
theorem namesAgree (s : String) : NamesAgree s where
  pattern := Text.isName_iff_mem_namePattern
  scanned := ⟨spannedOf_of_isName, fun h => isName_of_mem_spannedOf h List.mem_cons_self⟩
  found := by
    constructor
    · intro h
      exact ⟨s, _, _, spannedOf_of_isName h, List.mem_cons_self⟩
    · rintro ⟨line, items, span, hline, hmem⟩
      exact isName_of_mem_spannedOf hline hmem
  stated := by
    constructor
    · intro h
      obtain ⟨statement, text, hline, hquery, htarget⟩ :=
        exists_ofLine_projection h (List.forall_mem_singleton.mpr h) h
      exact ⟨_, statement, text, hline, hquery, htarget⟩
    · rintro ⟨line, statement, text, hline, -, rfl⟩
      exact isName_target_of_ofLine hline
  relation := by
    constructor
    · intro h
      obtain ⟨json, store, relation, hload, hfound, -⟩ := exists_ofJson_of_isName h
      exact ⟨json, store, relation, hload, hfound⟩
    · rintro ⟨json, store, relation, hload, hfound⟩
      exact (isName_of_ofJson hload hfound).1
  column := by
    constructor
    · intro h
      obtain ⟨json, store, relation, hload, hfound, hcolumn⟩ := exists_ofJson_of_isName h
      exact ⟨json, store, s, relation, hload, hfound, hcolumn⟩
    · rintro ⟨json, store, name, relation, hload, hfound, hmem⟩
      obtain ⟨column, hcolumn, rfl⟩ := List.mem_map.mp hmem
      exact (isName_of_ofJson hload hfound).2 column hcolumn
  badRelation := fun _ => Store.ofJson_eq_badRelationName
  badColumn := fun _ _ => Column.ofJson_eq_badColumnName

/-- Letters and digits outside ASCII make no names, and no blanks belong to one, at its end either. -/
example : ["_Log2", "x\n", " x", "coût", "x٢", "2x", ""].map Text.isName =
    [true, false, false, false, false, false, false] := by
  decide

end RelationScript
