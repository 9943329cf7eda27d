/-
# Outcomes of brackets

Brackets behind a query that has a value are a projection or a selection of it.  What they come to
depends on the names in them and on the heading of that value alone, and where they fail the fault
says which name or which pair of sides it is, and quotes the brackets as the line has them.

* `ProjectionOutcome`, `SelectionOutcome` : what brackets come to, case by case;
* `Relation.WellFormed.projectionOutcome`, `Relation.WellFormed.selectionOutcome` : the operators;
* `outcome_of_brackets` : brackets behind any query.
-/
import RelationScript.Evaluation
import RelationScript.Proofs.Query.SourceTexts
import RelationScript.Proofs.Relation.Faults

namespace RelationScript

/-! ## Outcomes -/

/-- What the projection of a relation to some names comes to, with `text` in its brackets. -/
structure ProjectionOutcome (relation : Relation) (dedup : Bool) (names : List String)
    (text : String) (outcome : Except EvalFault Relation) : Prop where
  /-- It fails on an unknown name exactly if there is one. -/
  missing : (∃ name, outcome = .error (.unknownColumn (.projection text) name)) ↔
    ∃ name ∈ names, name ∉ relation.heading.names
  /-- The first unknown name is the one at fault. -/
  unknown : ∀ name, outcome = .error (.unknownColumn (.projection text) name) →
    FirstUnknown relation.heading.names names name
  /-- It fails on a repeated name exactly if there is one, and all names are known. -/
  repeats : (∃ name, outcome = .error (.repeatedColumn (.projection text) name)) ↔
    names ⊆ relation.heading.names ∧ ¬ names.Nodup
  /-- The first name that equals an earlier one is the one at fault. -/
  repeated : ∀ name, outcome = .error (.repeatedColumn (.projection text) name) →
    FirstRepeated names name
  /-- It has a value exactly if all names are known and none is repeated. -/
  value : (∃ result, outcome = .ok result) ↔ names ⊆ relation.heading.names ∧ names.Nodup
  /-- The value has the columns named, in that order and as they are, and under them the cells of
  each row; only then are repeated rows dropped. -/
  listed : ∀ result, outcome = .ok result →
    List.Forall₂ (fun name column => column ∈ relation.heading ∧ column.name = name) names
        result.heading ∧
      ∃ rows, List.Forall₂ (fun row picked => List.Forall₂ (fun name cell => ∃ index : ℕ,
          relation.heading.names[index]? = some name ∧ row[index]? = some cell) names picked)
          relation.rows rows ∧
        result.rows = if dedup then Relation.distinct rows else rows

/-- What the selection by a column and a right-hand side comes to, with `text` in its brackets. -/
structure SelectionOutcome (relation : Relation) (name : String) (comparand : Comparand)
    (text : String) (outcome : Except EvalFault Relation) : Prop where
  /-- It fails on an unknown name on the left, or else on one on the right. -/
  unknown : ∀ other, outcome = .error (.unknownColumn (.selection text) other) ↔
    (other = name ∧ name ∉ relation.heading.names) ∨
      (name ∈ relation.heading.names ∧ comparand = .column other ∧
        other ∉ relation.heading.names)
  /-- It is ill-typed exactly if the two sides clash, in the way that they do. -/
  illTyped : ∀ mismatch, outcome = .error (.illTyped text mismatch) ↔
    ∃ left ∈ relation.heading, left.name = name ∧
      comparand.Clashes relation.heading left mismatch
  /-- It has a value exactly if the two sides fit. -/
  value : (∃ result, outcome = .ok result) ↔
    ∃ left ∈ relation.heading, left.name = name ∧ comparand.Fits relation.heading left
  /-- There are no other outcomes. -/
  total : (∃ result, outcome = .ok result) ∨
    (∃ other, outcome = .error (.unknownColumn (.selection text) other)) ∨
      ∃ mismatch, outcome = .error (.illTyped text mismatch)
  /-- The value has the same columns, and some of the rows in their order. -/
  kept : ∀ result, outcome = .ok result →
    result.heading = relation.heading ∧ result.rows.Sublist relation.rows

/-! ## Faults in the words of queries -/

namespace EvalFault

variable {text name : String} {cause : AlgebraFault}

/-- A projection quotes its text on an unknown column exactly where the relation reports one. -/
theorem ofProject_eq_unknownColumn :
    ofProject text cause = .unknownColumn (.projection text) name ↔
      cause = .unknownColumn name := by
  cases cause <;> simp [ofProject]

/-- A projection quotes its text on a repeated column exactly where the relation reports one. -/
theorem ofProject_eq_repeatedColumn :
    ofProject text cause = .repeatedColumn (.projection text) name ↔
      cause = .repeatedColumn name := by
  cases cause <;> simp [ofProject]

theorem ofSelect_eq_unknownColumn :
    ofSelect text cause = .unknownColumn (.selection text) name ↔ cause = .unknownColumn name := by
  cases cause <;> simp [ofSelect]

theorem ofSelect_eq_illTyped {mismatch : Mismatch} :
    ofSelect text cause = .illTyped text mismatch ↔ cause = .illTyped mismatch := by
  cases cause <;> simp [ofSelect]

end EvalFault

/-! ## The operators -/

namespace Relation

variable {relation : Relation}

/-- Projecting a well-formed relation has the outcome that its list of columns decides. -/
theorem WellFormed.projectionOutcome (hrelation : relation.WellFormed) (names : List String)
    (dedup : Bool) (text : String) :
    ProjectionOutcome relation dedup names text
      ((relation.project names dedup).mapError (.ofProject text)) := by
  have hunknown : ∀ name, (relation.project names dedup).mapError (EvalFault.ofProject text) =
      .error (.unknownColumn (.projection text) name) ↔
        FirstUnknown relation.heading.names names name := by
    intro name
    simp [mapError_eq_error, EvalFault.ofProject_eq_unknownColumn, project_eq_error]
  have hrepeated : ∀ name, (relation.project names dedup).mapError (EvalFault.ofProject text) =
      .error (.repeatedColumn (.projection text) name) ↔
        names ⊆ relation.heading.names ∧ FirstRepeated names name := by
    intro name
    simp [mapError_eq_error, EvalFault.ofProject_eq_repeatedColumn, project_eq_error]
  refine ⟨?_, fun name h => (hunknown name).mp h, ?_,
    fun name h => ((hrepeated name).mp h).2, ?_, ?_⟩
  · simp only [hunknown]
    exact exists_firstUnknown_iff
  · simp only [hrepeated, exists_and_left]
    exact and_congr_right fun _ => exists_firstRepeated_iff
  · simp only [mapError_eq_ok]
    exact exists_project_iff
  · intro result hresult
    exact hrelation.forall₂_project (mapError_eq_ok.mp hresult)

/-- Selecting from a well-formed relation has the outcome that its condition decides. -/
theorem WellFormed.selectionOutcome (hrelation : relation.WellFormed) (name : String)
    (comparator : Comparator) (comparand : Comparand) (text : String) :
    SelectionOutcome relation name comparand text
      ((relation.select name comparator comparand).mapError (.ofSelect text)) where
  unknown := by
    intro other
    simp only [mapError_eq_error, EvalFault.ofSelect_eq_unknownColumn, exists_eq_right,
      hrelation.select_eq_error]
    constructor
    · rintro (⟨hname, hfault⟩ | ⟨left, hleft, rfl, ⟨right, hright, hunlisted, hfault⟩ | h⟩)
      · exact Or.inl ⟨AlgebraFault.unknownColumn.inj hfault, hname⟩
      · obtain rfl := AlgebraFault.unknownColumn.inj hfault
        exact Or.inr ⟨List.mem_map_of_mem hleft, hright, hunlisted⟩
      · obtain ⟨mismatch, -, hfault⟩ := h
        cases hfault
    · rintro (⟨rfl, hname⟩ | ⟨hname, hright, hunlisted⟩)
      · exact Or.inl ⟨hname, rfl⟩
      · obtain ⟨left, hleft, rfl⟩ := List.mem_map.mp hname
        exact Or.inr ⟨left, hleft, rfl, Or.inl ⟨other, hright, hunlisted, rfl⟩⟩
  illTyped := by
    intro mismatch
    simp [mapError_eq_error, EvalFault.ofSelect_eq_illTyped, hrelation.select_eq_error]
  value := by
    simp only [mapError_eq_ok]
    exact hrelation.exists_select_iff
  total := by
    cases hselect : relation.select name comparator comparand with
    | ok result => exact Or.inl ⟨result, rfl⟩
    | error fault =>
      refine Or.inr ?_
      rcases exists_of_select_eq_error hselect with ⟨other, rfl⟩ | ⟨mismatch, rfl⟩
      · exact Or.inl ⟨other, rfl⟩
      · exact Or.inr ⟨mismatch, rfl⟩
  kept := by
    intro result hresult
    obtain ⟨index, left, side, -, -, rfl⟩ := select_eq_ok.mp (mapError_eq_ok.mp hresult)
    exact ⟨rfl, List.filter_sublist⟩

end Relation

/-! ## Brackets behind queries -/

/-- A text without blanks around it is shown in faults as it is. -/
theorem bodyText_of_isTrimmed {text : String} (h : Text.IsTrimmed text.toList)
    (rendering : String) : bodyText text rendering = text := by
  obtain ⟨c, hc, -⟩ := h.first
  have hne : text.isEmpty = false := by
    rw [Bool.eq_false_iff, ne_eq, String.isEmpty_iff]
    rintro rfl
    cases hc
  rw [bodyText, hne, if_neg Bool.false_ne_true]

/-- **What brackets come to.**  Behind a query whose value is a well-formed relation, brackets have
the outcome that this relation alone decides: in a projection an unknown name goes before a
repeated one, and in a selection the left-hand side goes before the right-hand side, and both names
before the kinds.  In queries that were read from a line, the text in the fault is what stands
between the brackets of the line. -/
theorem outcome_of_brackets {store : Store} {options : Options} {base : Query}
    {relation : Relation} (hbase : base.evaluate store options = .ok relation)
    (hrelation : relation.WellFormed) :
    (∀ columns text, ProjectionOutcome relation options.dedup (columns.map ColumnRef.columnName)
        (bodyText text (", ".intercalate (columns.map ColumnRef.columnName)))
        ((Query.project base columns text).evaluate store options)) ∧
      (∀ condition text, SelectionOutcome relation condition.column.columnName
        condition.operand.comparand (bodyText text condition.display)
        ((Query.select base condition text).evaluate store options)) ∧
      ∀ line statement, Statement.ofLine line = .ok statement →
        (∃ items, spannedOf line = .ok items ∧
          Bracketed line.toList items statement.query.brackets) ∧
        ∀ (body : Grammar.Body) text, body.query base text ∈ statement.query.subqueries →
          (body, text) ∈ statement.query.brackets ∧
            ∀ rendering, bodyText text rendering = text := by
  refine ⟨?_, ?_, ?_⟩
  · intro columns text
    rw [Query.evaluate, hbase]
    exact hrelation.projectionOutcome _ _ _
  · intro condition text
    rw [Query.evaluate, hbase]
    exact hrelation.selectionOutcome _ _ _ _
  · intro line statement hline
    refine ⟨exists_bracketed hline, fun body text hpart => ?_⟩
    have hmem := Query.mem_brackets_of_mem_subqueries hpart
    exact ⟨hmem, bodyText_of_isTrimmed (isTrimmed_of_mem_brackets hline hmem)⟩

/-- An unknown name behind a repeated one, and a line that compares a string with a number. -/
theorem outcome_of_brackets_of_lateUnknown :
    ∃ (store : Store) (relation : Relation) (statement : Statement),
      relation.WellFormed ∧ (Query.named "A").evaluate store {} = .ok relation ∧
      (Query.project (.named "A") [⟨none, "y"⟩, ⟨none, "y"⟩, ⟨some "A", "z"⟩] "").evaluate store
        {} = .error (.unknownColumn (.projection "y, y, A.z") "A.z") ∧
      FirstUnknown relation.heading.names ["y", "y", "A.z"] "A.z" ∧
      Statement.ofLine "A[ y =\tx ] -> T" = .ok statement ∧
      statement.query.evaluate store {} =
        .error (.illTyped "y =\tx" (.columns ⟨"y", .string⟩ ⟨"x", .numeric⟩)) ∧
      Comparand.Clashes relation.heading ⟨"y", .string⟩ (.column "x")
        (.columns ⟨"y", .string⟩ ⟨"x", .numeric⟩) ∧
      ∀ rendering, bodyText "y =\tx" rendering = "y =\tx" := by
  let relation : Relation := ⟨[⟨"x", .numeric⟩, ⟨"y", .string⟩],
    [[.number ⟨true, 150, 2, by decide, by decide⟩, .text "b"]]⟩
  have hrelation : relation.WellFormed := ⟨by decide, by decide⟩
  have hbase : (Query.named "A").evaluate (Store.empty.bind "A" relation) {} = .ok relation := by
    cbv
  have hline : ∃ statement, Statement.ofLine "A[ y =\tx ] -> T" = .ok statement ∧
      statement.query =
        .select (.named "A") ⟨⟨none, "y"⟩, .equal, .column ⟨none, "x"⟩⟩ "y =\tx" :=
    ⟨_, by cbv, by cbv⟩
  obtain ⟨statement, hline, hquery⟩ := hline
  obtain ⟨hproject, hselect, hlines⟩ := outcome_of_brackets hbase hrelation
  obtain ⟨-, hparts⟩ := hlines _ _ hline
  obtain ⟨-, hwritten⟩ := hparts (.condition ⟨⟨none, "y"⟩, .equal, .column ⟨none, "x"⟩⟩) "y =\tx"
    (by rw [hquery]; exact List.mem_cons_self)
  have hprojection := hproject [⟨none, "y"⟩, ⟨none, "y"⟩, ⟨some "A", "z"⟩] ""
  have hselection := hselect ⟨⟨none, "y"⟩, .equal, .column ⟨none, "x"⟩⟩ "y =\tx"
  rw [hwritten] at hselection
  have hclash : Comparand.Clashes relation.heading ⟨"y", .string⟩ (.column "x")
      (.columns ⟨"y", .string⟩ ⟨"x", .numeric⟩) :=
    @Comparand.Clashes.columns _ ⟨"y", .string⟩ ⟨"x", .numeric⟩ (by decide) (by decide)
  have hunknown : (Query.project (.named "A")
      [⟨none, "y"⟩, ⟨none, "y"⟩, ⟨some "A", "z"⟩] "").evaluate (Store.empty.bind "A" relation) {} =
        .error (.unknownColumn (.projection "y, y, A.z") "A.z") := by
    cbv
  refine ⟨_, relation, statement, hrelation, hbase, hunknown, ?_, hline, ?_, hclash, hwritten⟩
  · exact hprojection.unknown "A.z" hunknown
  · rw [hquery]
    exact (hselection.illTyped _).mpr ⟨⟨"y", .string⟩, by decide, rfl, hclash⟩

end RelationScript
