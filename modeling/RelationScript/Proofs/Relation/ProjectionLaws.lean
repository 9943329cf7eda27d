/-
# Laws of projections

A projection finds its columns by name and picks cells at their positions, and it may drop repeated
rows.  A repeat among rows stays one among their parts.  So it makes no difference to a projection
that drops repeats whether some have been dropped before, by another projection or by a union, and
a selection on columns that are kept may come before or after it.

* `projectRows_projectRows`, `filter_projectRows`, `projectRows_union` : projections, selections and
  unions of projected rows;
* `ProjectionLaws`, `projectionLaws_of_wellFormed` : the laws for well-formed relations.
-/
import RelationScript.Proofs.Relation.Conditions

namespace RelationScript.Relation

/-! ## Rows -/

/-- Equal rows have equal cells at the same positions. -/
theorem distinct_map_pick_distinct (indices : List ℕ) (rows : List Row) :
    distinct ((distinct rows).map (pick indices)) = distinct (rows.map (pick indices)) :=
  distinct_map_distinct (fun _ _ hrow => rel_pick hrow indices) rows

variable {inner : List ℕ} {rows : List Row}

theorem map_pick_map_pick (h : ∀ row ∈ rows, ∀ index ∈ inner, index < row.length)
    (outer : List ℕ) :
    (rows.map (pick inner)).map (pick outer) = rows.map (pick (pick outer inner)) := by
  rw [List.map_map]
  apply List.map_congr_left
  intro row hrow
  exact pick_pick (h row hrow) outer

/-- Two projections in a row pick at the positions that the second one picks of the first one's. -/
theorem projectRows_projectRows (h : ∀ row ∈ rows, ∀ index ∈ inner, index < row.length)
    (outer : List ℕ) (dedup : Bool) :
    projectRows dedup outer (projectRows dedup inner rows) =
      projectRows dedup (pick outer inner) rows := by
  cases dedup with
  | false => exact map_pick_map_pick h outer
  | true =>
    show distinct ((distinct (rows.map (pick inner))).map (pick outer)) = distinct _
    rw [distinct_map_pick_distinct, map_pick_map_pick h]

/-- A test of projected rows is a test of the rows, if it comes out the same. -/
theorem filter_projectRows {kept kept' : Row → Bool} (hkept' : Respects kept')
    (h : ∀ row ∈ rows, kept' (pick inner row) = kept row) (dedup : Bool) :
    (projectRows dedup inner rows).filter kept' = projectRows dedup inner (rows.filter kept) := by
  have hmap : (rows.map (pick inner)).filter kept' = (rows.filter kept).map (pick inner) := by
    rw [List.filter_map]
    congr 1
    apply List.filter_congr
    intro row hrow
    exact h row hrow
  cases dedup with
  | false => exact hmap
  | true =>
    show (distinct (rows.map (pick inner))).filter kept' = distinct _
    rw [← distinct_filter hkept', hmap]

/-- Repeats may be dropped in the parts of a union or not. -/
theorem projectRows_union (dedup : Bool) (left right : List Row) :
    projectRows true inner (combineRows .union left right) =
      combineRows .union (projectRows dedup inner left) (projectRows dedup inner right) := by
  show distinct ((distinct (left ++ right)).map (pick inner)) =
    distinct (projectRows dedup inner left ++ projectRows dedup inner right)
  rw [distinct_map_pick_distinct, List.map_append]
  cases dedup with
  | false => rfl
  | true =>
    show _ = distinct (distinct (left.map (pick inner)) ++ distinct (right.map (pick inner)))
    rw [distinct_distinct_append, distinct_append_distinct]

/-! ## Columns -/

variable {heading : Heading} {names : List String}

/-- A projection to different columns that are found has a value, whatever the rows are. -/
theorem project_of_locateAll (h : heading.locateAll names = .ok inner) (hnames : names.Nodup)
    (rows : List Row) (dedup : Bool) :
    project ⟨heading, rows⟩ names dedup =
      .ok ⟨pick inner heading, projectRows dedup inner rows⟩ := by
  refine project_eq_ok.mpr ⟨inner, h, ?_, rfl⟩
  rwa [Heading.names_pick h]

/-- A column that is kept is called as before. -/
theorem counterpart_of_locateAll (hnodup : heading.names.Nodup)
    (h : heading.locateAll names = .ok inner) (hnames : names.Nodup) {name : String}
    (hname : name ∈ names) :
    heading.Counterpart (fun index place => inner[place]? = some index) (pick inner heading) name
      name := by
  have hpicked := Heading.names_pick h
  have hnodup' : (Heading.names (pick inner heading)).Nodup := by rwa [hpicked]
  obtain ⟨place, hplace⟩ := List.mem_iff_getElem?.mp (hpicked.symm ▸ hname)
  obtain ⟨index, hindex, hposition⟩ :=
    Heading.position?_of_pick h ((Heading.position?_eq_some_iff hnodup').mpr hplace)
  refine Heading.counterpart_of_getElem? hnodup hnodup' (Heading.getElem?_of_position? hposition)
    hplace ?_ hindex
  have hkinds : Heading.kinds (pick inner heading) = pick inner heading.kinds :=
    map_pick Column.kind inner heading
  have hlt : ∀ index ∈ inner, index < heading.kinds.length := by
    simpa [Heading.kinds] using Heading.lt_of_locateAll h
  rw [hkinds, getElem?_pick hlt, hindex, Option.bind_some]

/-! ## Relations -/

/-- The laws that projections obey, as equalities of relations with their columns and all their rows
in order. -/
structure ProjectionLaws (a : Relation) (xs : List String) (dedup : Bool) : Prop where
  /-- The second one of two projections decides. -/
  project : ∀ ys : List String, ys.Nodup → ys ⊆ xs → Coincide
    (do (← a.project xs dedup).project ys dedup)
    (a.project ys dedup)
  /-- A selection on columns that are kept may come before or after. -/
  select : ∀ name comparator comparand chosen, name ∈ xs →
    (∀ other, comparand = .column other → other ∈ xs) →
    a.select name comparator comparand = .ok chosen → Coincide
      (do (← a.project xs dedup).select name comparator comparand)
      (do (← a.select name comparator comparand).project xs dedup)
  /-- A union may come before or after a projection that drops repeats. -/
  union : ∀ b : Relation, a.heading = b.heading → Coincide
    (do (← a.combine .union b).project xs true)
    (do (← a.project xs dedup).combine .union (← b.project xs dedup))

variable {a : Relation} {xs ys : List String}

/-- Projecting twice is projecting once to the smaller list of columns. -/
theorem coincide_project_project (ha : a.WellFormed) (hxs : xs.Nodup)
    (hinner : a.heading.locateAll xs = .ok inner) (hys : ys.Nodup) (hsubset : ys ⊆ xs)
    (dedup : Bool) :
    Coincide (do (← a.project xs dedup).project ys dedup) (a.project ys dedup) := by
  obtain ⟨heading, rows⟩ := a
  obtain ⟨outer, houter⟩ := Heading.exists_locateAll ((Heading.names_pick hinner).symm ▸ hsubset)
  have hbound := Heading.lt_of_locateAll hinner
  rw [project_of_locateAll hinner hxs, ok_bind, project_of_locateAll houter hys,
    project_of_locateAll (Heading.locateAll_pick hinner houter) hys, pick_pick hbound,
    projectRows_projectRows]
  · exact .of_eq rfl
  · intro row hrow index hindex
    rw [ha.length_eq hrow]
    exact hbound index hindex

/-- A selection on columns that are kept may be made before a projection or after it. -/
theorem coincide_select_project (ha : a.WellFormed) (hxs : xs.Nodup)
    (hinner : a.heading.locateAll xs = .ok inner) {name : String} {comparator : Comparator}
    {comparand : Comparand} {chosen : Relation} (hname : name ∈ xs)
    (hcomparand : ∀ other, comparand = .column other → other ∈ xs)
    (h : a.select name comparator comparand = .ok chosen) (dedup : Bool) :
    Coincide (do (← a.project xs dedup).select name comparator comparand)
      (do (← a.select name comparator comparand).project xs dedup) := by
  obtain ⟨heading, rows⟩ := a
  have hcounterpart : ∀ other ∈ xs, heading.Counterpart (fun index place =>
      inner[place]? = some index) (pick inner heading) other other := fun other hother =>
    counterpart_of_locateAll ha.nodup hinner hxs hother
  have hrenamed : comparand.Renamed (heading.Counterpart (fun index place =>
      inner[place]? = some index) (pick inner heading)) comparand := by
    cases comparand with
    | column other => exact .column (hcounterpart other (hcomparand other rfl))
    | literal value => exact .literal value
  obtain ⟨kept, kept', rfl, hselect, hrespects, hkept⟩ :=
    exists_select_of_counterpart (hcounterpart name hname) hrenamed h
  rw [h, project_of_locateAll hinner hxs, ok_bind, ok_bind, hselect,
    project_of_locateAll hinner hxs, filter_projectRows hrespects]
  · exact .of_eq rfl
  · intro row hrow
    apply hkept
    intro index place hplace
    -- The cell is picked to where the column has been moved.
    rw [getElem?_pick, hplace, Option.bind_some]
    rw [ha.length_eq hrow]
    exact Heading.lt_of_locateAll hinner

theorem coincide_project_union (hxs : xs.Nodup) (hinner : a.heading.locateAll xs = .ok inner)
    (dedup : Bool) {b : Relation} (hheading : a.heading = b.heading) :
    Coincide (do (← a.combine .union b).project xs true)
      (do (← a.project xs dedup).combine .union (← b.project xs dedup)) := by
  obtain ⟨heading, rows⟩ := a
  obtain ⟨heading', rows'⟩ := b
  obtain rfl : heading = heading' := hheading
  simp only [combine_mk, project_of_locateAll hinner hxs, ok_bind]
  exact .of_eq (congrArg _ (projectRows_union dedup rows rows'))

/-- **Laws of projections.**  Let the names of some columns of a well-formed relation be listed, each
once.  A projection to them and then to some of them is a projection to the latter.  A condition
that mentions no other columns selects before the projection what it selects after it.  A union with
a relation of the same heading, projected without repeats, is the union of the projections.
Projections may keep repeats or drop them; columns and rows come in the same order, and rows equally
often. -/
theorem projectionLaws_of_wellFormed (ha : a.WellFormed) (hxs : xs.Nodup)
    (hnames : xs ⊆ a.heading.names) (dedup : Bool) : ProjectionLaws a xs dedup := by
  obtain ⟨inner, hinner⟩ := Heading.exists_locateAll hnames
  constructor
  case project =>
    intro ys hys hsubset
    exact coincide_project_project ha hxs hinner hys hsubset dedup
  case select =>
    intro name comparator comparand chosen hname hcomparand h
    exact coincide_select_project ha hxs hinner hname hcomparand h dedup
  case union =>
    intro b hheading
    exact coincide_project_union hxs hinner dedup hheading

/-- Two columns of three in another order, among which two rows agree. -/
theorem projectionLaws_of_agreeingRows :
    let a : Relation := ⟨[⟨"x", .string⟩, ⟨"y", .string⟩, ⟨"z", .numeric⟩],
      [[.text "a", .text "b", .number .zero], [.text "b", .text "b", .number .zero],
        [.text "a", .text "b", .number ⟨false, 1, 0, by decide, by decide⟩]]⟩
    a.WellFormed ∧ ["y", "x"].Nodup ∧ ["y", "x"] ⊆ a.heading.names ∧
      a.project ["y", "x"] true = .ok ⟨[⟨"y", .string⟩, ⟨"x", .string⟩],
        [[.text "b", .text "a"], [.text "b", .text "b"]]⟩ ∧
      a.select "x" .notEqual (.column "y") = .ok ⟨a.heading,
        [[.text "a", .text "b", .number .zero],
          [.text "a", .text "b", .number ⟨false, 1, 0, by decide, by decide⟩]]⟩ ∧
      ProjectionLaws a ["y", "x"] true ∧ ProjectionLaws a ["y", "x"] false := by
  intro a
  have ha : a.WellFormed := ⟨by decide, by decide⟩
  have hnodup : ["y", "x"].Nodup := by decide
  have hnames : ["y", "x"] ⊆ a.heading.names := by decide
  exact ⟨ha, hnodup, hnames, by decide, by decide,
    projectionLaws_of_wellFormed ha hnodup hnames true,
    projectionLaws_of_wellFormed ha hnodup hnames false⟩

end RelationScript.Relation
