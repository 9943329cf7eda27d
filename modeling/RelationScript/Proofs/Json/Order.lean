/-
# Objects in the order of their keys

A JSON object lists its members by key, and a key occurs once.  Every value that a text writes is so.

* `Json.Ordered` : the values with members in order;
* `Json.member?_eq_some` : looking a member up is membership;
* `Json.exists_ofMembers_perm` : no member is lost under keys that differ;
* `Json.ordered_ofMembers`, `Json.ordered_of_read?` : where such values come from.
-/
import Mathlib
import RelationScript.Json.Reading

namespace RelationScript.Json

/-- The value is no object, or lists its members in the order of their keys, each key once. -/
def Ordered (json : Json) : Prop :=
  ∀ members, json = object members → (members.map Prod.fst).Pairwise (· < ·)

/-! ## Members -/

section Members

variable {members : List (String × Json)} {key : String} {value : Json}

/-- Only objects have members. -/
theorem exists_object_of_member? {json : Json} (h : json.member? key = some value) :
    ∃ members, json = object members := by
  cases json with
  | object members => exact ⟨members, rfl⟩
  | _ => cases h

/-- Under keys that occur once, looking up is membership. -/
theorem lookup_eq_some_iff {α : Type} {entries : List (String × α)} {content : α}
    (h : (entries.map Prod.fst).Nodup) :
    entries.lookup key = some content ↔ (key, content) ∈ entries := by
  rw [List.lookup_eq_some_iff]
  constructor
  · rintro ⟨before, after, rfl, -⟩
    exact List.mem_append_right _ List.mem_cons_self
  · intro hmem
    obtain ⟨before, after, rfl⟩ := List.append_of_mem hmem
    refine ⟨before, after, rfl, fun entry hentry => ?_⟩
    rw [List.map_append, List.nodup_append] at h
    have hne := h.2.2 entry.1 (List.mem_map_of_mem hentry) key (by simp)
    exact bne_iff_ne.mpr (Ne.symm hne)

theorem Ordered.nodup (h : (object members).Ordered) : (members.map Prod.fst).Nodup :=
  (h members rfl).imp fun hlt => ne_of_lt hlt

theorem member?_eq_some (h : (object members).Ordered) :
    (object members).member? key = some value ↔ (key, value) ∈ members :=
  lookup_eq_some_iff h.nodup

/-- Before a member stand those with smaller keys. -/
theorem mem_before_iff {before after : List (String × Json)}
    (h : (object (before ++ (key, value) :: after)).Ordered) {other : String × Json} :
    other ∈ before ↔ other ∈ before ++ (key, value) :: after ∧ other.1 < key := by
  have hkeys := h _ rfl
  rw [List.map_append, List.map_cons, List.pairwise_append, List.pairwise_cons] at hkeys
  obtain ⟨-, ⟨hafter, -⟩, hbefore⟩ := hkeys
  constructor
  · intro hother
    refine ⟨List.mem_append_left _ hother, ?_⟩
    exact hbefore other.1 (List.mem_map_of_mem hother) key List.mem_cons_self
  · rintro ⟨hother, hlt⟩
    rcases List.mem_append.mp hother with hother | hother
    · exact hother
    · exfalso
      rcases List.mem_cons.mp hother with rfl | hother
      · exact lt_irrefl _ hlt
      · exact lt_asymm hlt (hafter other.1 (List.mem_map_of_mem hother))

/-! ## Setting members -/

/-- Inserting a member adds its key at most. -/
theorem mem_keys_insertMember {other : String}
    (h : other ∈ (insertMember key value members).map Prod.fst) :
    other = key ∨ other ∈ members.map Prod.fst := by
  induction members with
  | nil => exact Or.inl (List.mem_singleton.mp h)
  | cons first members ih =>
    obtain ⟨present, kept⟩ := first
    rw [insertMember] at h
    split at h
    · exact List.mem_cons.mp h
    · split at h
      · exact (List.mem_cons.mp h).imp_right fun h => List.mem_cons_of_mem _ h
      · rcases List.mem_cons.mp h with rfl | h
        · exact Or.inr List.mem_cons_self
        · exact (ih h).imp_right fun h => List.mem_cons_of_mem _ h

/-- Inserting a member keeps the keys in order. -/
theorem pairwise_insertMember (h : (members.map Prod.fst).Pairwise (· < ·)) :
    ((insertMember key value members).map Prod.fst).Pairwise (· < ·) := by
  induction members with
  | nil => exact List.pairwise_singleton _ _
  | cons first members ih =>
    obtain ⟨present, kept⟩ := first
    have hall := h
    rw [List.map_cons, List.pairwise_cons] at h
    rw [insertMember]
    split
    next hlt =>
      refine List.pairwise_cons.mpr ⟨fun other hother => ?_, hall⟩
      rcases List.mem_cons.mp hother with rfl | hother
      · exact hlt
      · exact lt_trans hlt (h.1 other hother)
    next hnot =>
      split
      next heq =>
        rw [heq]
        exact hall
      next hne =>
        have hlt := lt_of_le_of_ne (not_lt.mp hnot) (Ne.symm hne)
        refine List.pairwise_cons.mpr ⟨fun other hother => ?_, ih h.2⟩
        rcases mem_keys_insertMember hother with rfl | hother
        · exact hlt
        · exact h.1 other hother

/-- A new member is added to the others. -/
theorem insertMember_perm (h : key ∉ members.map Prod.fst) :
    (insertMember key value members).Perm ((key, value) :: members) := by
  induction members with
  | nil => exact .refl _
  | cons first members ih =>
    obtain ⟨present, kept⟩ := first
    rw [List.map_cons, List.mem_cons, not_or] at h
    rw [insertMember]
    split
    · exact .refl _
    · rw [if_neg h.1]
      exact ((ih h.2).cons _).trans (.swap _ _ _)

/-- Members with distinct keys are all there after they are inserted one by one. -/
theorem foldl_insertMember_perm {sorted : List (String × Json)}
    (h : ((members ++ sorted).map Prod.fst).Nodup) :
    (members.foldl (fun sorted (key, value) => insertMember key value sorted) sorted).Perm
      (members ++ sorted) := by
  induction members generalizing sorted with
  | nil => exact .refl _
  | cons first members ih =>
    obtain ⟨key, value⟩ := first
    have hkey : key ∉ sorted.map Prod.fst := by
      intro hmem
      have hnodup := h
      rw [List.map_append, List.nodup_append] at hnodup
      exact hnodup.2.2 key List.mem_cons_self key hmem rfl
    have hmiddle : (members ++ insertMember key value sorted).Perm
        ((key, value) :: (members ++ sorted)) :=
      ((insertMember_perm hkey).append_left members).trans List.perm_middle
    exact (ih ((hmiddle.map Prod.fst).nodup_iff.mpr h)).trans hmiddle

/-- Members under different keys are all kept. -/
theorem exists_ofMembers_perm (h : (members.map Prod.fst).Nodup) :
    ∃ sorted, ofMembers members = object sorted ∧ sorted.Perm members := by
  have hperm := @foldl_insertMember_perm members [] (by rwa [List.append_nil])
  rw [List.append_nil] at hperm
  exact ⟨_, rfl, hperm⟩

end Members

/-! ## Values with members in order -/

theorem ordered_ofMembers (members : List (String × Json)) : (ofMembers members).Ordered := by
  rintro _ ⟨⟩
  exact List.foldlRecOn (motive := fun sorted => (List.map Prod.fst sorted).Pairwise (· < ·))
    members _ List.Pairwise.nil fun _ hsorted _ _ => pairwise_insertMember hsorted

/-- What is read, if anything, is in order as soon as the values on the way are. -/
theorem ordered_of_readValue? (profile : Profile) :
    (∀ stack cs, ∀ json ∈ readValue? profile stack cs, json.Ordered) ∧
      ∀ stack value cs, value.Ordered → ∀ json ∈ readRest? profile stack value cs, json.Ordered := by
  have hother : ∀ {json : Json}, (∀ members, json ≠ object members) → json.Ordered :=
    fun h members hobject => absurd hobject (h members)
  apply readValue?.mutual_induct_unfolding profile
    (fun _ _ outcome => ∀ json ∈ outcome, json.Ordered)
    (fun _ value _ outcome => value.Ordered → ∀ json ∈ outcome, json.Ordered)
  all_goals intros
  -- Nothing is read.
  case case1 | case4 | case7 | case9 | case11 | case16 => contradiction
  case case21 | case23 => contradiction
  -- The value is the whole text.
  case case17 hvalue json hjson =>
    cases hjson
    exact hvalue
  -- Reading goes on in a frame.
  case case3 ih json hjson | case8 ih json hjson => exact ih json hjson
  case case18 ih _ json hjson | case20 ih _ json hjson => exact ih json hjson
  -- A value has been read.
  case case5 ih json hjson => exact ih (ordered_ofMembers []) json hjson
  case case22 ih _ json hjson => exact ih (ordered_ofMembers _) json hjson
  case case19 ih _ json hjson => exact ih (hother fun _ => Json.noConfusion) json hjson
  case case2 ih json hjson | case6 ih json hjson | case10 ih json hjson | case12 ih json hjson
      | case13 ih json hjson | case14 ih json hjson | case15 ih json hjson =>
    exact ih (hother fun _ => Json.noConfusion) json hjson

/-- **Objects that have been read are in order.** -/
theorem ordered_of_read? {profile : Profile} {text : String} {json : Json}
    (h : read? profile text = some json) : json.Ordered :=
  (ordered_of_readValue? profile).1 [] text.toList json h

end RelationScript.Json
