/-
# Qualification of columns

The rounds of qualification come to an end with the fuel they have: each leaves fewer columns
unqualified.  In the end two columns of one name have both been qualified, and from different
sides their labels tell them apart.

* `Slot.settled_settle` : no slot is left to qualify;
* `Slot.LabelsApart` : labels that tell all qualified names apart;
* `Slot.nodup_names_of_settled` : settled slots have distinct names;
* `Relation.exists_product_of_labelsApart`, `Relation.exists_product` : products exist under such
  labels, and under different labels without dots.
-/
import RelationScript.Proofs.Relation.WellFormed

namespace RelationScript

namespace Slot

/-! ## The rounds come to an end -/

/-- How many slots could still be qualified. -/
def unqualified (slots : List Slot) : Nat :=
  slots.countP fun slot => !slot.qualified

/-- Names are settled when no slot is left that clashes. -/
theorem settled_iff {slots : List Slot} :
    settled slots = true ↔ ∀ slot ∈ slots, slot.clashes (slots.map name) = false := by
  simp [settled]

theorem qualified_of_clashes {names : List String} {slot : Slot} (h : slot.clashes names = true) :
    slot.qualified = false := by
  rw [clashes, Bool.and_eq_true] at h
  simpa using h.1

/-- A round leaves the slots unqualified that do not clash. -/
theorem unqualified_round (slots : List Slot) :
    unqualified (round slots) =
      ((slots.filter fun slot => !slot.qualified).filter fun slot =>
        !slot.clashes (slots.map name)).length := by
  rw [unqualified, round, List.countP_map, List.filter_filter, ← List.countP_eq_length_filter]
  -- A slot is unqualified after the round if it was before and did not clash.
  refine List.countP_congr fun slot _ => ?_
  by_cases hclash : slot.clashes (slots.map name) <;> simp [hclash]

/-- A round leaves fewer slots unqualified unless all are settled. -/
theorem unqualified_round_lt {slots : List Slot} (h : settled slots = false) :
    unqualified (round slots) < unqualified slots := by
  obtain ⟨slot, hslot, hclash⟩ : ∃ slot ∈ slots, slot.clashes (slots.map name) = true := by
    simpa [settled] using h
  rw [unqualified_round, unqualified, List.countP_eq_length_filter]
  refine List.length_filter_lt_length_iff_exists.mpr ⟨slot, ?_, by simp [hclash]⟩
  exact List.mem_filter.mpr ⟨hslot, by simp [qualified_of_clashes hclash]⟩

/-- As many rounds as there are slots to qualify settle the names. -/
theorem settled_settle {fuel : Nat} {slots : List Slot} (h : unqualified slots ≤ fuel) :
    settled (settle fuel slots) = true := by
  induction fuel generalizing slots with
  | zero =>
    rw [settle]
    by_contra hsettled
    have hlt := unqualified_round_lt (Bool.of_not_eq_true hsettled)
    omega
  | succ fuel ih =>
    rw [settle]
    split
    next hsettled => exact hsettled
    next hsettled =>
      have hlt := unqualified_round_lt (Bool.of_not_eq_true hsettled)
      exact ih (by omega)

/-! ## Names of settled slots -/

/-- What no round changes: the label of the side and the name in the operand. -/
def key (slot : Slot) : String × String :=
  (slot.label, slot.column.name)

theorem key_settle (fuel : Nat) (slots : List Slot) :
    (settle fuel slots).map key = slots.map key :=
  Relation.map_settle (fun _ => rfl) fuel slots

/-- The label `other` is `label` with a dot and more behind it. -/
def Continues (label other : String) : Prop :=
  ∃ more, other = label ++ "." ++ more

/-- Two labels that tell all qualified names apart: they differ, and neither continues the other. -/
structure LabelsApart (left right : String) : Prop where
  ne : left ≠ right
  right_not_continues : ¬ Continues left right
  left_not_continues : ¬ Continues right left

theorem LabelsApart.symm {left right : String} (h : LabelsApart left right) :
    LabelsApart right left :=
  ⟨h.ne.symm, h.left_not_continues, h.right_not_continues⟩

/-- A label continues another one with a dot and more behind it. -/
theorem continues_iff {label other : String} :
    Continues label other ↔ ∃ more, other.toList = label.toList ++ '.' :: more := by
  constructor
  · rintro ⟨more, rfl⟩
    exact ⟨more.toList, by simp⟩
  · rintro ⟨more, hother⟩
    refine ⟨String.ofList more, String.toList_inj.mp ?_⟩
    simpa using hother

instance (label other : String) : Decidable (Continues label other) :=
  decidable_of_iff (label.toList ++ ['.'] <+: other.toList) <| by
    rw [continues_iff]
    simp [List.IsPrefix, eq_comm]

/-- Labels are apart if they differ and neither continues the other. -/
theorem labelsApart_iff {left right : String} :
    LabelsApart left right ↔ left ≠ right ∧ ¬ Continues left right ∧ ¬ Continues right left :=
  ⟨fun h => ⟨h.ne, h.right_not_continues, h.left_not_continues⟩, fun h => ⟨h.1, h.2.1, h.2.2⟩⟩

instance (left right : String) : Decidable (LabelsApart left right) :=
  decidable_of_iff _ labelsApart_iff.symm

/-- Different labels without dots are apart. -/
theorem labelsApart_of_dot_not_mem {left right : String} (hne : left ≠ right)
    (hleft : '.' ∉ left.toList) (hright : '.' ∉ right.toList) : LabelsApart left right := by
  have hnot : ∀ {label other : String}, '.' ∉ other.toList → ¬ Continues label other := by
    intro label other hdot hother
    obtain ⟨more, hlist⟩ := continues_iff.mp hother
    exact hdot (by simp [hlist])
  exact ⟨hne, hnot hright, hnot hleft⟩

/-- Two texts with dots in them are cut at the same dot, or at a dot within one of the parts. -/
theorem of_append_dot_eq {front back rest more : List Char}
    (h : front ++ '.' :: rest = back ++ '.' :: more) :
    front = back ∧ rest = more ∨ (∃ between, back = front ++ '.' :: between) ∨
      ∃ between, front = back ++ '.' :: between := by
  rcases List.append_eq_append_iff.mp h with ⟨between, hback, hcut⟩ | ⟨between, hfront, hcut⟩
  · cases between with
    | nil => exact Or.inl ⟨by simpa using hback.symm, by simpa using hcut⟩
    | cons c between =>
      obtain ⟨rfl, -⟩ := List.cons.inj hcut
      exact Or.inr (Or.inl ⟨between, hback⟩)
  · cases between with
    | nil => exact Or.inl ⟨by simpa using hfront, by simpa [eq_comm] using hcut⟩
    | cons c between =>
      obtain ⟨rfl, -⟩ := List.cons.inj hcut
      exact Or.inr (Or.inr ⟨between, hfront⟩)

/-- Under labels that are apart, no qualified names coincide. -/
theorem LabelsApart.qualified_ne {left right : String} (h : LabelsApart left right)
    (name name' : String) : left ++ "." ++ name ≠ right ++ "." ++ name' := by
  intro heq
  have hlist : left.toList ++ '.' :: name.toList = right.toList ++ '.' :: name'.toList := by
    simpa using congrArg String.toList heq
  rcases of_append_dot_eq hlist with ⟨hsame, -⟩ | hright | hleft
  · exact h.ne (String.toList_inj.mp hsame)
  · exact h.right_not_continues (continues_iff.mpr hright)
  · exact h.left_not_continues (continues_iff.mpr hleft)

/-- Two entries with the same image make it occur more than once. -/
theorem one_lt_count_map {α β : Type} [BEq β] [LawfulBEq β] {f : α → β} {l : List α} {x y : α}
    (hx : x ∈ l) (hy : y ∈ l) (hne : y ≠ x) (h : f y = f x) : 1 < (l.map f).count (f x) := by
  obtain ⟨before, after, rfl⟩ := List.append_of_mem hx
  rw [List.map_append, List.map_cons, List.count_append, List.count_cons_self]
  rcases List.mem_append.mp hy with hy | hy
  · have hpos := List.count_pos_iff.mpr (List.mem_map_of_mem (f := f) hy)
    rw [h] at hpos
    omega
  · have hmem := List.mem_map_of_mem (f := f) ((List.mem_cons.mp hy).resolve_left hne)
    have hpos := List.count_pos_iff.mpr hmem
    rw [h] at hpos
    omega

/-- A settled slot that shares its name has been qualified. -/
theorem qualified_of_settled {slots : List Slot} (h : settled slots = true) {slot : Slot}
    (hslot : slot ∈ slots) (hcount : 1 < (slots.map name).count slot.name) :
    slot.qualified = true := by
  have hclash := settled_iff.mp h slot hslot
  simpa [clashes, hcount] using hclash

/-- **Settled slots have distinct names.**  Two slots of one name have both been qualified, so
they come from the same side and had the same name there. -/
theorem nodup_names_of_settled {slots : List Slot} (hsettled : settled slots = true)
    (hkeys : (slots.map key).Nodup)
    (hlabels : ∀ x ∈ slots, ∀ y ∈ slots, x.label ≠ y.label → LabelsApart x.label y.label) :
    (slots.map name).Nodup := by
  refine List.Nodup.map_on ?_ hkeys.of_map
  intro x hx y hy hname
  by_contra hne
  have hx' : x.qualified = true :=
    qualified_of_settled hsettled hx (one_lt_count_map hx hy (Ne.symm hne) hname.symm)
  have hy' : y.qualified = true :=
    qualified_of_settled hsettled hy (one_lt_count_map hy hx hne hname)
  rw [name, name, if_pos hx', if_pos hy'] at hname
  by_cases hlabel : x.label = y.label
  · rw [hlabel, String.append_right_inj] at hname
    exact hne (List.inj_on_of_nodup_map hkeys hx hy (Prod.ext hlabel hname))
  · exact (hlabels x hx y hy hlabel).qualified_ne _ _ hname

end Slot

namespace Relation

theorem label_of_mem_ofHeading {label : String} {heading : Heading} {slot : Slot}
    (h : slot ∈ Slot.ofHeading label heading) : slot.label = label := by
  obtain ⟨column, -, rfl⟩ := List.mem_map.mp h
  rfl

/-- The slots of an operand differ in their columns. -/
theorem nodup_keys_ofHeading (label : String) {heading : Heading} (h : heading.names.Nodup) :
    ((Slot.ofHeading label heading).map Slot.key).Nodup := by
  have hkeys : (Slot.ofHeading label heading).map Slot.key =
      heading.names.map fun name => (label, name) := by
    simp [Slot.ofHeading, Slot.key, Heading.names, Function.comp_def]
  rw [hkeys]
  exact h.map fun _ _ heq => (Prod.mk.inj heq).2

/-- Under labels that are apart, the names of a product are distinct. Qualified names of one side
keep the columns apart, and those of different sides the labels. -/
theorem nodup_names_productHeading {left right : Heading} {leftLabel rightLabel : String}
    (hleft : left.names.Nodup) (hright : right.names.Nodup)
    (hlabels : Slot.LabelsApart leftLabel rightLabel) :
    (productHeading left right leftLabel rightLabel).names.Nodup := by
  let slots := Slot.ofHeading leftLabel left ++ Slot.ofHeading rightLabel right
  -- Slots differ in their sides or in their names there, and rounds change neither.
  have hkeys : (slots.map Slot.key).Nodup := by
    rw [List.map_append, List.nodup_append]
    refine ⟨nodup_keys_ofHeading _ hleft, nodup_keys_ofHeading _ hright, ?_⟩
    rintro _ hx _ hy rfl
    obtain ⟨x, hx, hxkey⟩ := List.mem_map.mp hx
    obtain ⟨y, hy, hykey⟩ := List.mem_map.mp hy
    have hlabel := congrArg Prod.fst (hxkey.trans hykey.symm)
    exact hlabels.ne ((label_of_mem_ofHeading hx).symm.trans (hlabel.trans (label_of_mem_ofHeading hy)))
  have hsettled : Slot.settled (Slot.settle slots.length slots) = true :=
    Slot.settled_settle List.countP_le_length
  have hside : ∀ slot ∈ Slot.settle slots.length slots,
      slot.label = leftLabel ∨ slot.label = rightLabel := by
    intro slot hslot
    have hkey : slot.key ∈ slots.map Slot.key := by
      rw [← Slot.key_settle slots.length]
      exact List.mem_map_of_mem hslot
    obtain ⟨original, horiginal, heq⟩ := List.mem_map.mp hkey
    rw [← show original.label = slot.label from congrArg Prod.fst heq]
    rcases List.mem_append.mp horiginal with h | h
    · exact Or.inl (label_of_mem_ofHeading h)
    · exact Or.inr (label_of_mem_ofHeading h)
  rw [← Slot.key_settle slots.length] at hkeys
  rw [productHeading, Heading.names, List.map_map]
  refine Slot.nodup_names_of_settled hsettled hkeys fun x hx y hy hne => ?_
  rcases hside x hx with h | h <;> rcases hside y hy with h' | h' <;> rw [h, h'] at hne ⊢
  · exact absurd rfl hne
  · exact hlabels
  · exact hlabels.symm
  · exact absurd rfl hne

/-- Well-formed operands have a product under labels that are apart. -/
theorem exists_product_of_labelsApart {a b : Relation} {leftLabel rightLabel : String}
    (ha : a.WellFormed) (hb : b.WellFormed) (h : Slot.LabelsApart leftLabel rightLabel) :
    ∃ c, a.product b leftLabel rightLabel = .ok c :=
  ⟨_, product_eq_ok.mpr ⟨nodup_names_productHeading ha.nodup hb.nodup h, rfl⟩⟩

/-- **Products under different labels exist.**  Two labels without dots keep the columns of the
two sides apart, whatever qualified names these have already. -/
theorem exists_product {a b : Relation} {leftLabel rightLabel : String} (ha : a.WellFormed)
    (hb : b.WellFormed) (hne : leftLabel ≠ rightLabel) (hleft : '.' ∉ leftLabel.toList)
    (hright : '.' ∉ rightLabel.toList) : ∃ c, a.product b leftLabel rightLabel = .ok c :=
  exists_product_of_labelsApart ha hb (Slot.labelsApart_of_dot_not_mem hne hleft hright)

end Relation

end RelationScript
