/-
# Selections ahead of other operators

What is selected from the result of an operator can be selected from its operands.  Equal rows meet
a condition together, so that it does not matter whether repeats are dropped before or after a
selection; and a product has the cells of its operands at positions that depend on the headings
alone, so that a condition on columns of one operand can be put to this operand, under the names
that its columns have there.

* `filter_combineRows_left`, `filter_productRows_left`, `filter_productRows_right` : tests of rows
  ahead of operators;
* `leftNames`, `rightNames` : what the columns of the operands are called in a product;
* `CombinePushdown`, `ProductPushdown` : where a selection may be made instead;
* `select_pushdown` : selections after set operators and after products.
-/
import RelationScript.Proofs.Relation.Conditions
import RelationScript.Proofs.Relation.Naming

namespace RelationScript.Relation

/-! ## Set operators -/

/-- Intersections and differences have rows of their left operands only. -/
theorem filter_combineRows_left {p : Row → Bool} (hp : Respects p) {operator : SetOperator}
    (hoperator : operator ≠ .union) (left right : List Row) :
    (combineRows operator left right).filter p = combineRows operator (left.filter p) right := by
  cases operator with
  | union => exact absurd rfl hoperator
  | intersection => rw [combineRows, combineRows, ← distinct_filter hp, List.filter_comm]
  | difference => rw [combineRows, combineRows, List.filter_comm]

/-- A selection after a set operator may be made on both operands, and on the left one alone if the
operator has no rows of the right one. -/
structure CombinePushdown (a b : Relation) (select : Relation → Except AlgebraFault Relation) :
    Prop where
  both : ∀ operator, Coincide
    (do select (← a.combine operator b))
    (do (← select a).combine operator (← select b))
  left : ∀ operator, operator ≠ .union → Coincide
    (do select (← a.combine operator b))
    (do (← select a).combine operator b)

theorem combinePushdown_of_select {a b chosen : Relation} (hheading : a.heading = b.heading)
    {name : String} {comparator : Comparator} {comparand : Comparand}
    (h : a.select name comparator comparand = .ok chosen) :
    CombinePushdown a b fun relation => relation.select name comparator comparand := by
  obtain ⟨heading, left⟩ := a
  obtain ⟨heading', right⟩ := b
  obtain rfl : heading = heading' := hheading
  obtain ⟨index, column, side, hfind, hside, -⟩ := select_eq_ok.mp h
  have hselect : ∀ rows, select ⟨heading, rows⟩ name comparator comparand =
      .ok ⟨heading, rows.filter (keeps index comparator side)⟩ := fun rows =>
    select_eq_ok.mpr ⟨index, column, side, hfind, hside, rfl⟩
  have hrespects := respects_keeps index comparator side
  constructor
  · intro operator
    simp only [combine_mk, hselect, ok_bind]
    exact .of_eq (congrArg _ (filter_combineRows hrespects operator left right))
  · intro operator hoperator
    simp only [combine_mk, hselect, ok_bind]
    exact .of_eq (congrArg _ (filter_combineRows_left hrespects hoperator left right))

/-! ## Rows of products -/

/-- A test that looks at the left part of a pair only chooses among the left rows. -/
theorem filter_productRows_left {p kept : Row → Bool} {left : List Row} (right : List Row)
    (h : ∀ row ∈ left, ∀ other, p (row ++ other) = kept row) :
    (productRows left right).filter p = productRows (left.filter kept) right := by
  induction left with
  | nil => rfl
  | cons row left ih =>
    obtain ⟨hrow, hleft⟩ := List.forall_mem_cons.mp h
    rw [productRows_cons, List.filter_append, ih hleft, List.filter_map]
    cases hkept : kept row with
    | true =>
      rw [List.filter_cons_of_pos hkept, productRows_cons, List.filter_eq_self.mpr]
      intro other _
      rw [Function.comp, hrow, hkept]
    | false =>
      rw [List.filter_cons_of_neg (by simp [hkept]), List.filter_eq_nil_iff.mpr, List.map_nil,
        List.nil_append]
      intro other _
      rw [Function.comp, hrow, hkept]
      simp

/-- A test that looks at the right part of a pair only chooses among the right rows. -/
theorem filter_productRows_right {p kept : Row → Bool} {left : List Row} (right : List Row)
    (h : ∀ row ∈ left, ∀ other, p (row ++ other) = kept other) :
    (productRows left right).filter p = productRows left (right.filter kept) := by
  induction left with
  | nil => rfl
  | cons row left ih =>
    obtain ⟨hrow, hleft⟩ := List.forall_mem_cons.mp h
    rw [productRows_cons, productRows_cons, List.filter_append, ih hleft, List.filter_map]
    congr 2
    apply List.filter_congr
    intro other _
    exact hrow other

/-! ## Names in products -/

/-- The columns of the left operand: what they are called in the product, and what they are called
in the operand. -/
def leftNames (a product : Relation) : List (String × String) :=
  (product.heading.names.take a.heading.length).zip a.heading.names

/-- The columns of the right operand: what they are called in the product, and what they are called
in the operand. -/
def rightNames (a b product : Relation) : List (String × String) :=
  (product.heading.names.drop a.heading.length).zip b.heading.names

variable {a b product : Relation} {leftLabel rightLabel : String}

theorem kinds_of_product (hproduct : a.product b leftLabel rightLabel = .ok product) :
    product.heading.kinds = a.heading.kinds ++ b.heading.kinds := by
  obtain ⟨-, rfl⟩ := product_eq_ok.mp hproduct
  exact kinds_productHeading _ _ _ _

theorem length_names_of_product (hproduct : a.product b leftLabel rightLabel = .ok product) :
    product.heading.names.length = a.heading.length + b.heading.length := by
  have hlength := congrArg List.length (kinds_of_product hproduct)
  simpa [Heading.kinds, Heading.names] using hlength

/-- A column of the left operand is at its old position. -/
theorem counterpart_of_mem_leftNames (ha : a.heading.names.Nodup)
    (hproduct : a.product b leftLabel rightLabel = .ok product) {name original : String}
    (h : (name, original) ∈ leftNames a product) :
    product.heading.Counterpart (fun index index' => index' = index ∧ index < a.heading.length)
      a.heading name original := by
  have hkinds := kinds_of_product hproduct
  obtain ⟨index, hindex⟩ := List.mem_iff_getElem?.mp h
  obtain ⟨hname, horiginal⟩ := List.getElem?_zip_eq_some.mp hindex
  have hlt : index < a.heading.length := by
    simpa [Heading.names] using (List.getElem?_eq_some_iff.mp horiginal).1
  rw [List.getElem?_take_of_lt hlt] at hname
  refine Heading.counterpart_of_getElem? ?_ ha hname horiginal ?_ ⟨rfl, hlt⟩
  · obtain ⟨hnodup, rfl⟩ := product_eq_ok.mp hproduct
    exact hnodup
  · rw [hkinds, List.getElem?_append_left (by simpa [Heading.kinds] using hlt)]

/-- A column of the right operand is behind those of the left one. -/
theorem counterpart_of_mem_rightNames (hb : b.heading.names.Nodup)
    (hproduct : a.product b leftLabel rightLabel = .ok product) {name original : String}
    (h : (name, original) ∈ rightNames a b product) :
    product.heading.Counterpart (fun index index' => index = a.heading.length + index')
      b.heading name original := by
  have hkinds := kinds_of_product hproduct
  obtain ⟨index, hindex⟩ := List.mem_iff_getElem?.mp h
  obtain ⟨hname, horiginal⟩ := List.getElem?_zip_eq_some.mp hindex
  rw [List.getElem?_drop] at hname
  refine Heading.counterpart_of_getElem? ?_ hb hname horiginal ?_ rfl
  · obtain ⟨hnodup, rfl⟩ := product_eq_ok.mp hproduct
    exact hnodup
  · rw [hkinds, List.getElem?_append_right (by simp [Heading.kinds])]
    simp [Heading.kinds]

/-! ## Products -/

/-- A selection after a product, on columns of one operand, may be made on this operand, with the
names that the columns have there. -/
structure ProductPushdown (a b product : Relation) (labels : String × String) : Prop where
  /-- All columns of the product are columns of one or the other operand. -/
  names : (leftNames a product ++ rightNames a b product).map Prod.fst = product.heading.names
  /-- And they are all columns of the operands. -/
  originals : (leftNames a product ++ rightNames a b product).map Prod.snd =
    a.heading.names ++ b.heading.names
  left : ∀ {name original comparator comparand comparand' chosen},
    (name, original) ∈ leftNames a product →
    Comparand.Renamed (fun name original => (name, original) ∈ leftNames a product) comparand
      comparand' →
    product.select name comparator comparand = .ok chosen →
      (do (← a.select original comparator comparand').product b labels.1 labels.2) = .ok chosen
  right : ∀ {name original comparator comparand comparand' chosen},
    (name, original) ∈ rightNames a b product →
    Comparand.Renamed (fun name original => (name, original) ∈ rightNames a b product) comparand
      comparand' →
    product.select name comparator comparand = .ok chosen →
      (do a.product (← b.select original comparator comparand') labels.1 labels.2) = .ok chosen

/-- A selection on columns of the left side may be made before the product. -/
theorem select_product_left (ha : a.WellFormed)
    (hproduct : a.product b leftLabel rightLabel = .ok product) {name original : String}
    {comparator : Comparator} {comparand comparand' : Comparand} {chosen : Relation}
    (hname : (name, original) ∈ leftNames a product)
    (hcomparand : comparand.Renamed (fun name original => (name, original) ∈ leftNames a product)
      comparand')
    (h : product.select name comparator comparand = .ok chosen) :
    (do (← a.select original comparator comparand').product b leftLabel rightLabel) =
      .ok chosen := by
  obtain ⟨kept, kept', rfl, hselect, -, hkept⟩ := exists_select_of_counterpart
    (counterpart_of_mem_leftNames ha.nodup hproduct hname)
    (hcomparand.imp fun _ _ => counterpart_of_mem_leftNames ha.nodup hproduct) h
  obtain ⟨hnodup, rfl⟩ := product_eq_ok.mp hproduct
  rw [hselect a.rows, ok_bind, product_eq_ok]
  refine ⟨hnodup, congrArg _ (filter_productRows_left b.rows ?_)⟩
  intro row hrow other
  refine (hkept (row ++ other) row ?_).symm
  rintro index _ ⟨rfl, hlt⟩
  rw [List.getElem?_append_left]
  rwa [ha.length_eq hrow]

/-- A selection on columns of the right side may be made before the product. -/
theorem select_product_right (ha : a.WellFormed) (hb : b.heading.names.Nodup)
    (hproduct : a.product b leftLabel rightLabel = .ok product) {name original : String}
    {comparator : Comparator} {comparand comparand' : Comparand} {chosen : Relation}
    (hname : (name, original) ∈ rightNames a b product)
    (hcomparand : comparand.Renamed (fun name original => (name, original) ∈ rightNames a b product)
      comparand')
    (h : product.select name comparator comparand = .ok chosen) :
    (do a.product (← b.select original comparator comparand') leftLabel rightLabel) =
      .ok chosen := by
  obtain ⟨kept, kept', rfl, hselect, -, hkept⟩ := exists_select_of_counterpart
    (counterpart_of_mem_rightNames hb hproduct hname)
    (hcomparand.imp fun _ _ => counterpart_of_mem_rightNames hb hproduct) h
  obtain ⟨hnodup, rfl⟩ := product_eq_ok.mp hproduct
  rw [hselect b.rows, ok_bind, product_eq_ok]
  refine ⟨hnodup, congrArg _ (filter_productRows_right b.rows ?_)⟩
  intro row hrow other
  refine (hkept (row ++ other) other ?_).symm
  rintro _ index rfl
  -- The cells of the left row come first.
  rw [← ha.length_eq hrow, List.getElem?_append_right (by omega), Nat.add_sub_cancel_left]

/-- A selection that looks at one side of a product moves to this side. -/
theorem productPushdown_of_wellFormed (ha : a.WellFormed) (hb : b.heading.names.Nodup)
    (hproduct : a.product b leftLabel rightLabel = .ok product) :
    ProductPushdown a b product (leftLabel, rightLabel) := by
  have hlength := length_names_of_product hproduct
  have hleft : a.heading.names.length = a.heading.length := List.length_map _
  have hright : b.heading.names.length = b.heading.length := List.length_map _
  refine ⟨?_, ?_, select_product_left ha hproduct, select_product_right ha hb hproduct⟩
  · rw [List.map_append, leftNames, rightNames, List.map_fst_zip, List.map_fst_zip,
      List.take_append_drop]
    · rw [List.length_drop]
      omega
    · rw [List.length_take]
      omega
  · rw [List.map_append, leftNames, rightNames, List.map_snd_zip, List.map_snd_zip]
    · rw [List.length_drop]
      omega
    · rw [List.length_take]
      omega

/-- **Selection can be pushed down.**  Of relations with one heading, what a condition selects from
the result of a set operator is the result of the operator for what it selects from both operands,
and for intersections and differences also for what it selects from the left one and the whole right
one.  What a condition on columns of one operand selects from a product is the product, under the
same labels, of what it selects from this operand, with the names that the columns have there, and
of the whole other operand.  Rows come in the same order and equally often. -/
theorem select_pushdown (ha : a.WellFormed) (hb : b.WellFormed) :
    (a.heading = b.heading → ∀ name comparator comparand chosen,
      a.select name comparator comparand = .ok chosen →
        CombinePushdown a b fun relation => relation.select name comparator comparand) ∧
    ∀ leftLabel rightLabel product, a.product b leftLabel rightLabel = .ok product →
      ProductPushdown a b product (leftLabel, rightLabel) := by
  constructor
  · intro hheading name comparator comparand chosen h
    exact combinePushdown_of_select hheading h
  · intro leftLabel rightLabel product hproduct
    exact productPushdown_of_wellFormed ha hb.nodup hproduct

/-- Two relations that share a row in two scales: a comparison of two columns, once of both and once
of the right operand of their product, in which all columns are qualified. -/
theorem select_pushdown_of_qualifiedColumns :
    let heading : Heading := [⟨"x", .numeric⟩, ⟨"y", .numeric⟩]
    let one : Cell := .number ⟨false, 1, 0, by decide, by decide⟩
    let oneAgain : Cell := .number ⟨false, 100, 2, by decide, by decide⟩
    let a : Relation := ⟨heading, [[.number .zero, one], [one, .number .zero]]⟩
    let b : Relation := ⟨heading, [[.number .zero, oneAgain], [one, one]]⟩
    let product : Relation := ⟨[⟨"A.x", .numeric⟩, ⟨"A.y", .numeric⟩, ⟨"B.x", .numeric⟩,
        ⟨"B.y", .numeric⟩],
      [[.number .zero, one, .number .zero, oneAgain], [.number .zero, one, one, one],
        [one, .number .zero, .number .zero, oneAgain], [one, .number .zero, one, one]]⟩
    let chosen : Relation := ⟨product.heading,
      [[.number .zero, one, .number .zero, oneAgain], [one, .number .zero, .number .zero, oneAgain]]⟩
    a.WellFormed ∧ b.WellFormed ∧ a.heading = b.heading ∧
      a.select "x" .less (.column "y") = .ok ⟨heading, [[.number .zero, one]]⟩ ∧
      (CombinePushdown a b fun relation => relation.select "x" .less (.column "y")) ∧
      a.product b "A" "B" = .ok product ∧
      product.select "B.x" .less (.column "B.y") = .ok chosen ∧
      (do a.product (← b.select "x" .less (.column "y")) "A" "B") = .ok chosen := by
  intro heading one oneAgain a b product chosen
  have ha : a.WellFormed := ⟨by decide, by decide⟩
  have hb : b.WellFormed := ⟨by decide, by decide⟩
  have hselect : a.select "x" .less (.column "y") = .ok ⟨heading, [[.number .zero, one]]⟩ := by
    decide
  have hproduct : a.product b "A" "B" = .ok product := by decide
  have hchosen : product.select "B.x" .less (.column "B.y") = .ok chosen := by decide
  obtain ⟨hcombine, hpushdown⟩ := select_pushdown ha hb
  exact ⟨ha, hb, rfl, hselect, hcombine rfl _ _ _ _ hselect, hproduct, hchosen,
    (hpushdown _ _ _ hproduct).right (by decide) (.column (by decide)) hchosen⟩

end RelationScript.Relation
