/-
# Scales are not observable

Numbers keep the zeros that they were written with, and operators keep one or another of equal
rows, so two runs can carry different representations of the same numbers along.  Neither faults
nor rendered stores show them.

* `congruence_equal` : every operator respects equality by value;
* `Relation.Equal.toJson`, `Relation.Equal.table` : equal relations look the same;
* `render_eq_of_equal` : scripts and renderings cannot tell equal stores apart.
-/
import RelationScript.Job
import RelationScript.Proofs.Relation.Equality
import RelationScript.Proofs.Script.Agreement

namespace RelationScript

/-! ## Operators -/

/-- Operators cannot tell equal relations apart. -/
theorem congruence_equal (options : Options) :
    Congruence options options (fun _ => True) Relation.Equal := by
  have hiff : ∀ a b : Relation,
      a.Equal b ↔ a.heading = b.heading ∧ List.Forall₂ Row.Equal a.rows b.rows :=
    fun a b => ⟨fun h => ⟨h.heading, h.rows⟩, fun h => ⟨h.1, h.2⟩⟩
  refine Congruence.of_rows (List.Forall₂ Row.Equal) hiff ?_ ?_ ?_ ?_
  · intro operator _ _ _ left left' right right' hleft hright
    exact Relation.rel_combineRows hleft hright operator
  · exact fun _ _ _ _ hleft hright => Relation.rel_productRows hleft hright
  · intro indices rows rows' h
    have hpicked : List.Forall₂ Row.Equal (rows.map (pick indices)) (rows'.map (pick indices)) :=
      List.rel_map (fun _ _ hrow => rel_pick hrow indices) h
    rw [Relation.projectRows, Relation.projectRows]
    cases options.dedup with
    | false => exact hpicked
    | true => exact Relation.rel_distinct hpicked
  · intro index comparator right rows rows' h
    exact rel_filter (fun _ _ hrow => Relation.keeps_eq hrow index comparator right) h

/-! ## Renderings of relations -/

/-- Equal cells are the same JSON: whether a number is an integer depends on its value only, and
all other numbers are written in normal form. -/
theorem Cell.Equal.toJson {a b : Cell} (h : a.Equal b) : a.toJson = b.toJson := by
  cases h with
  | number h =>
    rw [Cell.toJson, Cell.toJson, Decimal.integer?_congr h, Decimal.normalize_eq_iff.mpr h]
  | text s => rfl
  | date d => rfl

namespace Relation

variable {a b : Relation}

/-- A row is written as an object with one member for each column. -/
theorem toJson_record (relation : Relation) (row : Row) :
    Record.toJson (relation.record row) =
      .ofMembers (relation.heading.names.zip (row.map Cell.toJson)) := by
  rw [Record.toJson, record, List.zip_map_right]
  rfl

/-- Relations that are equal are written alike, whatever the scales of their numbers. -/
theorem Equal.toJson (h : a.Equal b) : a.toJson = b.toJson := by
  have hrecord : Record.toJson ∘ a.record = Record.toJson ∘ b.record := by
    funext row
    rw [Function.comp, Function.comp, toJson_record, toJson_record, h.heading]
  have hrows : a.records.map Record.toJson = b.records.map Record.toJson := by
    rw [records, records, List.map_map, List.map_map, hrecord]
    refine map_eq_of_rel (fun row row' hrow => ?_) h.rows
    rw [Function.comp, Function.comp, toJson_record, toJson_record,
      map_eq_of_rel (fun _ _ hcell => hcell.toJson) hrow]
  rw [Relation.toJson, Relation.toJson, hrows]

/-- Relations that are equal are printed alike, or not at all. -/
theorem Equal.table (h : a.Equal b) : a.table = b.table := by
  have hcells : ∀ row row', Row.Equal row row' → Table.cellTexts row = Table.cellTexts row' :=
    fun row row' hrow => map_eq_of_rel (fun _ _ hcell => congrArg String.toList hcell.display) hrow
  have hlines : Table.lines a = Table.lines b := by
    simp only [Table.lines, h.heading, map_eq_of_rel hcells h.rows, h.rows.length_eq]
  rw [Relation.table, Relation.table, hlines]

end Relation

/-! ## Renderings of stores -/

namespace Store.Related

variable {r : Relation → Relation → Prop} {store store' : Store}

/-- Related stores list the same names, and relations that no observation tells apart. -/
theorem map_showing {α : Type} {f : Relation → α} (hf : ∀ a b, r a b → f a = f b)
    (h : store.Related r store') (chosen : List String) :
    (store.showing chosen).map (fun (name, relation) => (name, f relation)) =
      (store'.showing chosen).map fun (name, relation) => (name, f relation) := by
  -- As maps from names to observations, the stores are the same.
  have hmap : Std.ExtTreeMap.map (fun _ => f) store = Std.ExtTreeMap.map (fun _ => f) store' := by
    refine Std.ExtTreeMap.ext_getElem? fun name => ?_
    have hname := h name
    rw [find?, find?] at hname
    rw [Std.ExtTreeMap.getElem?_map, Std.ExtTreeMap.getElem?_map]
    generalize store[name]? = found, store'[name]? = found' at hname
    cases hname with
    | some hab => exact congrArg some (hf _ _ hab)
    | none => rfl
  have hbindings : store.bindings.map (fun (name, relation) => (name, f relation)) =
      store'.bindings.map fun (name, relation) => (name, f relation) := by
    have hlists := congrArg Std.ExtTreeMap.toList hmap
    rwa [Std.ExtTreeMap.toList_map, Std.ExtTreeMap.toList_map] at hlists
  have hfilter := congrArg
    (List.filter fun binding => chosen.isEmpty || chosen.contains binding.1) hbindings
  rwa [List.filter_map, List.filter_map] at hfilter

theorem toJson (h : store.Related Relation.Equal store') (chosen : List String) :
    store.toJson chosen = store'.toJson chosen := by
  rw [Store.toJson, Store.toJson, h.map_showing fun _ _ hab => hab.toJson]

/-- Names and tables of the relations are all that the tables of a store are made of. -/
theorem tables (h : store.Related Relation.Equal store') (chosen : List String) :
    store.tables chosen = store'.tables chosen := by
  have hshown := congrArg
    (List.mapM fun shown : String × Except Table.Abort String =>
      shown.2.map (shown.1 ++ ":\n" ++ ·))
    (h.map_showing (fun _ _ hab => hab.table) chosen)
  rw [List.mapM_map, List.mapM_map] at hshown
  exact congrArg (· >>= fun shown => .ok ("\n".intercalate shown)) hshown

theorem render (h : store.Related Relation.Equal store') (job : Job) :
    job.render store = job.render store' := by
  rw [Job.render, Job.render, h.tables, h.toJson]

end Store.Related

/-! ## Scripts -/

/-- **Scales are not observable.**  From two stores that bind the same names, to relations that
are equal by value, a script fails with the same fault at the same line, or leads to two such
stores again; and these look the same, character for character, as JSON and as tables. -/
theorem render_eq_of_equal {store store' : Store} (h : store.Related Relation.Equal store')
    (options : Options) (lines : List String) :
    Agree
      (fun final final' => final.Related Relation.Equal final' ∧
        ∀ job : Job, job.render final = job.render final')
      (Script.run options store lines) (Script.run options store' lines) ∧
    Script.firstFault? options store lines = Script.firstFault? options store' lines := by
  refine ⟨?_, (congruence_equal options).firstFault? h lines⟩
  rcases ((congruence_equal options).run h lines).cases_eq with
    ⟨final, final', hrun, hrun', hfinal⟩ | ⟨fault, hrun, hrun'⟩
  · rw [hrun, hrun']
    exact .ok ⟨hfinal, hfinal.render⟩
  · rw [hrun, hrun']
    exact .error fault

/-- The store whose only relation, `A`, has the given numbers in its only column. -/
def Store.ofNumbers (numbers : List Decimal) : Store :=
  Store.empty.bind "A" ⟨[⟨"x", .numeric⟩], numbers.map ([.number ·])⟩

/-- One and a half with one digit or two after the point, and zero with or without a sign. -/
theorem render_eq_of_signedZero :
    (Store.ofNumbers
        [⟨false, 15, 1, by decide, by decide⟩, ⟨true, 0, 0, by decide, by decide⟩]).Related
        Relation.Equal (Store.ofNumbers [⟨false, 150, 2, by decide, by decide⟩, .zero]) ∧
      Agree
        (fun final final' => final.Related Relation.Equal final' ∧
          ∀ job : Job, job.render final = job.render final')
        (Script.run ⟨true⟩ (Store.ofNumbers
          [⟨false, 15, 1, by decide, by decide⟩, ⟨true, 0, 0, by decide, by decide⟩])
          ["A[x >= 0] -> B", "B[x] | A -> A"])
        (Script.run ⟨true⟩ (Store.ofNumbers [⟨false, 150, 2, by decide, by decide⟩, .zero])
          ["A[x >= 0] -> B", "B[x] | A -> A"]) := by
  have hhalf : (⟨false, 15, 1, by decide, by decide⟩ : Decimal).value =
      (⟨false, 150, 2, by decide, by decide⟩ : Decimal).value := by
    norm_num [Decimal.value, Decimal.signedMantissa]
  have hzero : (⟨true, 0, 0, by decide, by decide⟩ : Decimal).value = Decimal.zero.value := by
    norm_num [Decimal.value, Decimal.signedMantissa, Decimal.zero]
  have hstores : (Store.ofNumbers
      [⟨false, 15, 1, by decide, by decide⟩, ⟨true, 0, 0, by decide, by decide⟩]).Related
      Relation.Equal (Store.ofNumbers [⟨false, 150, 2, by decide, by decide⟩, .zero]) :=
    Store.Related.empty.bind "A" ⟨rfl, .cons (.cons (.number hhalf) .nil)
      (.cons (.cons (.number hzero) .nil) .nil)⟩
  exact ⟨hstores, (render_eq_of_equal hstores ⟨true⟩ _).1⟩

end RelationScript
