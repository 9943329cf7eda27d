/-
# Names in queries

The relations that a query mentions, and what a line may call them: the scanner finds names
only, and a tree has no other names than its tokens.  Hence the labels of a product are names,
which have no dots, and they differ.

* `Query.subqueries`, `Query.sources` : the parts of a query and the names in it;
* `isName_of_ofLine` : the names in a line are names;
* `Query.labels_ne`, `Query.isName_labels` : the labels of products.
-/
import RelationScript.Proofs.Outcome
import RelationScript.Proofs.Query.Parsing
import RelationScript.Proofs.Token.Tiling

namespace RelationScript

/-! ## Parts of queries -/

namespace Query

/-- The query and all queries that it is made of. -/
def subqueries : Query → List Query
  | named name => [named name]
  | combine operator left right =>
    combine operator left right :: (left.subqueries ++ right.subqueries)
  | product left right => product left right :: (left.subqueries ++ right.subqueries)
  | project base columns text => project base columns text :: base.subqueries
  | select base condition text => select base condition text :: base.subqueries

/-- The names of relations in a query. -/
def sources : Query → List String
  | named name => [name]
  | combine _ left right => left.sources ++ right.sources
  | product left right => left.sources ++ right.sources
  | project base _ _ => base.sources
  | select base _ _ => base.sources

/-- A query that occurs in a line of a script. -/
def Parsed (query : Query) : Prop :=
  ∃ line statement, Statement.ofLine line = .ok statement ∧ query ∈ statement.query.subqueries

/-- Texts and blanks do not change which relations a query names. -/
@[simp] theorem sources_bare (query : Query) : query.bare.sources = query.sources := by
  induction query with
  | named name => rfl
  | combine operator left right ihleft ihright => simp [bare, sources, ihleft, ihright]
  | product left right ihleft ihright => simp [bare, sources, ihleft, ihright]
  | project base columns text ih => exact ih
  | select base condition text ih => exact ih

theorem mem_subqueries_self (query : Query) : query ∈ query.subqueries := by
  cases query <;> simp [subqueries]

/-- A subquery names no relation that the whole query does not name. -/
theorem sources_subset_of_mem_subqueries {part whole : Query} (h : part ∈ whole.subqueries) :
    part.sources ⊆ whole.sources := by
  induction whole with
  | named name =>
    obtain rfl := List.mem_singleton.mp h
    exact List.Subset.refl _
  | combine operator left right ihleft ihright | product left right ihleft ihright =>
    rcases List.mem_cons.mp h with rfl | h
    · exact List.Subset.refl _
    · rcases List.mem_append.mp h with h | h
      · exact List.subset_append_of_subset_left _ (ihleft h)
      · exact List.subset_append_of_subset_right _ (ihright h)
  | project base columns text ih | select base condition text ih =>
    rcases List.mem_cons.mp h with rfl | h
    · exact List.Subset.refl _
    · exact ih h

/-- A query that has a name to show names this relation. -/
theorem mem_sources_of_displayName? {query : Query} {name : String}
    (h : query.displayName? = some name) : name ∈ query.sources := by
  induction query with
  | named other => simpa [displayName?, sources, eq_comm] using h
  | combine operator left right => simp [displayName?] at h
  | product left right => simp [displayName?] at h
  | project base columns text ih | select base condition text ih => exact ih h

end Query

/-! ## Names in lines -/

/-- The names that the scanner finds are names. -/
theorem isName_of_mem_lexemes {cursor : Cursor} {lexemes : List Lexeme}
    (h : cursor.lexemes = .ok lexemes) {value : String}
    (hvalue : .name value ∈ lexemes.map Lexeme.token) : Text.isName value = true := by
  obtain ⟨lexeme, hlexeme, htoken⟩ := List.mem_map.mp hvalue
  rcases (lexemes_eq_ok_iff.mp h).spells_of_mem hlexeme with hend | hspells
  · simp [htoken] at hend
  · rw [htoken] at hspells
    exact hspells.isName

namespace Grammar

theorem sources_restrict (base : Query) (body : Body) :
    (body.restrict base).sources = base.sources := by
  cases body <;> rfl

theorem sources_foldl_restrict (bodies : List (List Token × Body)) (base : Query) :
    (bodies.foldl (fun base item => item.2.restrict base) base).sources = base.sources := by
  induction bodies generalizing base with
  | nil => rfl
  | cons item bodies ih => rw [List.foldl_cons, ih, sources_restrict]

/-- A query joined from several parts names what its parts name. -/
theorem mem_sources_foldl {α : Type} {join : Query → α → Query} (part : α → Query)
    (hjoin : ∀ left item, (join left item).sources = left.sources ++ (part item).sources)
    {more : List α} {first : Query} {value : String}
    (h : value ∈ (more.foldl join first).sources) :
    value ∈ first.sources ∨ ∃ item ∈ more, value ∈ (part item).sources := by
  induction more generalizing first with
  | nil => exact Or.inl h
  | cons item more ih =>
    rcases ih h with h | ⟨other, hother, h⟩
    · rw [hjoin] at h
      exact (List.mem_append.mp h).imp_right fun h => ⟨item, List.mem_cons_self, h⟩
    · exact Or.inr ⟨other, List.mem_cons_of_mem _ hother, h⟩

/-- The relations in a tree are named by its tokens. -/
theorem Derives.name_mem {phrase : Phrase} {tokens : List Token} {query : Query}
    (h : Derives phrase tokens query) {value : String} (hvalue : value ∈ query.sources) :
    .name value ∈ tokens := by
  induction h with
  | name name =>
    obtain rfl := List.mem_singleton.mp hvalue
    exact List.mem_singleton_self _
  | parens h ih => simp [ih hvalue]
  | factor hfirst bodies hbodies ih =>
    rw [sources_foldl_restrict] at hvalue
    exact List.mem_append_left _ (ih hvalue)
  | term hfirst more hmore ihfirst ihmore =>
    rcases mem_sources_foldl (fun item => item.2) (fun _ _ => rfl) hvalue with
      hvalue | ⟨item, hitem, hvalue⟩
    · exact List.mem_append_left _ (ihfirst hvalue)
    · refine List.mem_append_right _ (List.mem_flatMap.mpr ⟨item, hitem, ?_⟩)
      exact List.mem_cons_of_mem _ (ihmore item hitem hvalue)
  | expression hfirst more hmore ihfirst ihmore =>
    rcases mem_sources_foldl (fun item => item.2.2) (fun _ _ => rfl) hvalue with
      hvalue | ⟨item, hitem, hvalue⟩
    · exact List.mem_append_left _ (ihfirst hvalue)
    · refine List.mem_append_right _ (List.mem_flatMap.mpr ⟨item, hitem, ?_⟩)
      exact List.mem_cons_of_mem _ (ihmore item hitem hvalue)

end Grammar

/-- A statement is the tree of the tokens of its line. -/
theorem sentence_of_ofLine {line : String} {statement : Statement}
    (h : Statement.ofLine line = .ok statement) :
    ∃ lexemes words, lexemesOf line = .ok lexemes ∧
      lexemes.map Lexeme.token = words ++ [.endOfLine] ∧
      Grammar.Sentence words statement.query.bare statement.target := by
  obtain ⟨lexemes, hlexemes, hread⟩ := ofLine_eq_ok.mp h
  obtain ⟨words, hwords, hend⟩ := Grammar.map_token_of_lexemes hlexemes
  have hsentence := Grammar.sentence_of_readStatement hwords hend (congrArg Prod.fst hread)
  exact ⟨lexemes, words, hlexemes, hwords, hsentence⟩

/-- The relations in a line have names that a script can write. -/
theorem isName_of_ofLine {line : String} {statement : Statement}
    (h : Statement.ofLine line = .ok statement) {value : String}
    (hvalue : value ∈ statement.query.sources) : Text.isName value = true := by
  obtain ⟨lexemes, _, hlexemes, hwords, left, rfl, hderives⟩ := sentence_of_ofLine h
  rw [← Query.sources_bare] at hvalue
  have hmem : .name value ∈ lexemes.map Lexeme.token := by
    simp [hwords, hderives.name_mem hvalue]
  exact isName_of_mem_lexemes hlexemes hmem

/-- A line binds names that a script can write. -/
theorem isName_target_of_ofLine {line : String} {statement : Statement}
    (h : Statement.ofLine line = .ok statement) : Text.isName statement.target = true := by
  obtain ⟨lexemes, _, hlexemes, hwords, left, rfl, -⟩ := sentence_of_ofLine h
  have hmem : .name statement.target ∈ lexemes.map Lexeme.token := by
    simp [hwords]
  exact isName_of_mem_lexemes hlexemes hmem

theorem Query.Parsed.isName {query : Query} (h : query.Parsed) {value : String}
    (hvalue : value ∈ query.sources) : Text.isName value = true := by
  obtain ⟨line, statement, hline, hpart⟩ := h
  exact isName_of_ofLine hline (sources_subset_of_mem_subqueries hpart hvalue)

/-! ## Labels of products -/

/-- A name has no dots. -/
theorem dot_not_mem_of_isName {name : String} (h : Text.isName name = true) :
    '.' ∉ name.toList := by
  obtain ⟨c, cs, hname, -, hall⟩ := Token.exists_cons_of_isName h
  rw [hname]
  exact fun hdot => absurd (hall '.' hdot) (by decide)

namespace Query

/-- The label of an operand is the anonymous one or the name of a relation in it. -/
theorem label_cases (query : Query) (anonymous : String) :
    query.displayName?.getD anonymous = anonymous ∨
      query.displayName?.getD anonymous ∈ query.sources := by
  cases h : query.displayName? with
  | none => exact Or.inl rfl
  | some name => exact Or.inr (mem_sources_of_displayName? h)

/-- The two labels of a product differ. -/
theorem labels_ne (left right : Query) : (labels left right).1 ≠ (labels left right).2 := by
  rw [labels]
  split
  next heq =>
    intro h
    -- Where both sides would have one label, the second has been made longer.
    have hlength := congrArg String.length h
    rw [heq, String.length_append] at hlength
    exact absurd hlength (by simp)
  next hne => exact hne

/-- A name stays one with further characters of names behind it. -/
theorem isName_append {name suffix : String} (h : Text.isName name = true)
    (hsuffix : suffix.toList.all Text.isNameChar = true) : Text.isName (name ++ suffix) = true := by
  obtain ⟨c, cs, hname, hc, hall⟩ := Token.exists_cons_of_isName h
  have hcs : cs.all Text.isNameChar = true :=
    List.all_eq_true.mpr fun d hd => hall d (List.mem_cons_of_mem c hd)
  rw [Text.isName, String.toList_append, hname]
  simp only [List.cons_append, List.all_append, hc, hcs, hsuffix, Bool.and_self]

/-- The labels of a product are names. -/
theorem isName_labels {left right : Query}
    (hleft : ∀ name ∈ left.sources, Text.isName name = true)
    (hright : ∀ name ∈ right.sources, Text.isName name = true) :
    Text.isName (labels left right).1 = true ∧ Text.isName (labels left right).2 = true := by
  have hlabel : ∀ (query : Query) (anonymous : String),
      (∀ name ∈ query.sources, Text.isName name = true) → Text.isName anonymous = true →
        Text.isName (query.displayName?.getD anonymous) = true := by
    intro query anonymous hnames hanonymous
    rcases label_cases query anonymous with h | h
    · rwa [h]
    · exact hnames _ h
  have hleftLabel := hlabel left "_1" hleft (by decide)
  have hrightLabel := hlabel right "_2" hright (by decide)
  rw [labels]
  split
  · exact ⟨hleftLabel, isName_append hrightLabel (by decide)⟩
  · exact ⟨hleftLabel, hrightLabel⟩

/-- The labels of a product have no dots. -/
theorem dot_not_mem_labels {left right : Query}
    (hleft : ∀ name ∈ left.sources, Text.isName name = true)
    (hright : ∀ name ∈ right.sources, Text.isName name = true) :
    '.' ∉ (labels left right).1.toList ∧ '.' ∉ (labels left right).2.toList := by
  obtain ⟨hleftLabel, hrightLabel⟩ := isName_labels hleft hright
  exact ⟨dot_not_mem_of_isName hleftLabel, dot_not_mem_of_isName hrightLabel⟩

end Query

end RelationScript
