/-
# Loading documents

The loader accepts exactly the documents, and the store has what they describe.  It takes the members
of an object one by one, in the order of their keys.

* `Store.ofMembers_eq_map` : the members of a document as bindings;
* `Loading` : what the loader does;
* `loading_of_ordered` : it does so on all values, with any `Decimal.Reader`.
-/
import RelationScript.Proofs.Document.Rejection
import RelationScript.Proofs.Script.Checks

namespace RelationScript

open Json (ColumnFault FirstFault IsMember IsRow MemberFault RelationFault RowFault)

/-! ## Many bindings -/

namespace Store

/-- The store with more bindings, one after the other. -/
def bindAll (store : Store) (bindings : List (String × Relation)) : Store :=
  bindings.foldl (fun store binding => store.bind binding.1 binding.2) store

/-- Other bindings leave a name as it is. -/
theorem find?_bindAll_of_not_mem {store : Store} {bindings : List (String × Relation)}
    {name : String} (h : name ∉ bindings.map Prod.fst) :
    (store.bindAll bindings).find? name = store.find? name := by
  induction bindings generalizing store with
  | nil => rfl
  | cons binding bindings ih =>
    rw [List.map_cons, List.mem_cons, not_or] at h
    show ((store.bind binding.1 binding.2).bindAll bindings).find? name = _
    rw [ih h.2, find?_bind, if_neg (Ne.symm h.1)]

/-- Bindings of distinct names are all found afterwards. -/
theorem find?_bindAll {store : Store} {bindings : List (String × Relation)} {name : String}
    {relation : Relation} (hnames : (bindings.map Prod.fst).Nodup)
    (h : (name, relation) ∈ bindings) :
    (store.bindAll bindings).find? name = some relation := by
  induction bindings generalizing store with
  | nil => cases h
  | cons binding bindings ih =>
    rw [List.map_cons, List.nodup_cons] at hnames
    show ((store.bind binding.1 binding.2).bindAll bindings).find? name = _
    rcases List.mem_cons.mp h with rfl | h
    · rw [find?_bindAll_of_not_mem hnames.1, find?_bind, if_pos rfl]
    · exact ih hnames.2 h

/-- The names of a store are those that it has relations for. -/
theorem exists_find?_iff {store : Store} {name : String} :
    (∃ relation, store.find? name = some relation) ↔ name ∈ store.names := by
  rw [mem_names, Std.ExtTreeMap.mem_iff_isSome_getElem?, Option.isSome_iff_exists]
  rfl

end Store

/-! ## Members as bindings -/

namespace Store

variable [Decimal.Reader]

/-- The binding that a member of a document describes. -/
def bindingOf (member : String × Json) : Except LoadFault (String × Relation) :=
  if Text.isName member.1 then
    (Relation.ofJson member.1 member.2).map (Prod.mk member.1)
  else
    .error (.badRelationName member.1)

/-- A document is loaded as its members are read one by one. -/
theorem ofMembers_eq_map (store : Store) (members : List (String × Json)) :
    ofMembers store members = (members.mapM bindingOf).map (bindAll store) := by
  induction members generalizing store with
  | nil => rfl
  | cons member members ih =>
    obtain ⟨name, json⟩ := member
    rw [ofMembers, List.mapM_cons, bindingOf]
    split
    next hname =>
      cases Relation.ofJson name json with
      | error fault => rfl
      | ok relation =>
        show ofMembers (store.bind name relation) members = _
        rw [ih]
        show _ = Except.map _ (members.mapM bindingOf >>= fun bindings =>
          .ok ((name, relation) :: bindings))
        cases members.mapM bindingOf <;> rfl
    next => rfl

/-- A member is read as the relation that it describes, under its key. -/
theorem bindingOf_eq_ok {member : String × Json} {binding : String × Relation} :
    bindingOf member = .ok binding ↔ binding.1 = member.1 ∧ Text.isName member.1 = true ∧
      member.2.IsRelation binding.2 := by
  unfold bindingOf
  constructor
  · intro h
    split at h
    next hname =>
      obtain ⟨relation, hrelation, rfl⟩ := map_eq_ok.mp h
      exact ⟨rfl, hname, Relation.ofJson_eq_ok.mp hrelation⟩
    next => cases h
  · rintro ⟨hkey, hname, hrelation⟩
    rw [if_pos hname]
    exact map_eq_ok.mpr ⟨_, Relation.ofJson_eq_ok.mpr hrelation, Prod.ext hkey.symm rfl⟩

/-- What can be read is a member of a document. -/
theorem exists_bindingOf_iff {member : String × Json} :
    (∃ binding, bindingOf member = .ok binding) ↔ IsMember member.1 member.2 := by
  simp only [bindingOf_eq_ok]
  constructor
  · rintro ⟨binding, -, hname, hrelation⟩
    exact ⟨hname, binding.2, hrelation⟩
  · rintro ⟨hname, relation, hrelation⟩
    exact ⟨(member.1, relation), rfl, hname, hrelation⟩

/-- The name of a relation is checked before the relation. -/
theorem bindingOf_eq_error {member : String × Json} {fault : LoadFault} :
    bindingOf member = .error fault ↔ MemberFault member.1 member.2 fault := by
  unfold bindingOf
  constructor
  · intro h
    split at h
    next hname => exact .body hname (Relation.ofJson_eq_error.mp (map_eq_error.mp h))
    next hname =>
      obtain rfl := Except.error.inj h
      exact .name (Bool.of_not_eq_true hname)
  · rintro (hname | ⟨hname, hbody⟩)
    · rw [hname, if_neg Bool.false_ne_true]
    · rw [if_pos hname]
      exact map_eq_error.mpr (Relation.ofJson_eq_error.mpr hbody)

/-- The bindings of a document that is accepted. -/
theorem ofJson_eq_ok {members : List (String × Json)} {store : Store} :
    ofJson (.object members) = .ok store ↔ ∃ bindings,
      List.Forall₂ (fun member binding => bindingOf member = .ok binding) members bindings ∧
        store = empty.bindAll bindings := by
  rw [ofJson, ofMembers_eq_map, map_eq_ok]
  exact exists_congr fun bindings => and_congr mapM_eq_ok eq_comm

/-- The first member at fault is told of: all before it describe relations. -/
theorem ofJson_eq_error {members : List (String × Json)} {fault : LoadFault} :
    ofJson (.object members) = .error fault ↔ ∃ before member after,
      members = before ++ member :: after ∧ (∀ other ∈ before, IsMember other.1 other.2) ∧
        MemberFault member.1 member.2 fault := by
  simp only [← exists_bindingOf_iff, ← bindingOf_eq_error]
  rw [ofJson, ofMembers_eq_map, map_eq_error, mapM_eq_error]

end Store

/-! ## What the loader does -/

/-- The row of a relation that a fault is about, by its index. -/
def LoadFault.row? : LoadFault → Option (String × ℕ)
  | badRow relation row | badCell relation row => some (relation, row)
  | algebra relation (.rowLength row _ _) | algebra relation (.cellKind row _ _) =>
    some (relation, row)
  | _ => none

section Loading

variable [Decimal.Reader]

/-- In the order of names, the relation is the first member that is at fault, and in it nothing is
at fault before the row with the index. -/
def Json.FirstBadRow (json : Json) (name : String) (index : ℕ) : Prop :=
  ∃ body heading good bad rest, json.member? name = some body ∧
    (∀ other more, json.member? other = some more → other < name → IsMember other more) ∧
    Text.isName name = true ∧ body.IsHeading heading ∧ body.HasRows (good ++ bad :: rest) ∧
    (∀ item ∈ good, ∃ row, IsRow heading item row) ∧ (∀ row, ¬ IsRow heading bad row) ∧
    index = good.length

/-- What the loader does on a JSON value. -/
structure Loading (json : Json) : Prop where
  /-- It accepts the documents. -/
  accepts : (∃ store, Store.ofJson json = .ok store) ↔ json.IsDocument
  /-- The store has the names of the document. -/
  names : ∀ store, Store.ofJson json = .ok store →
    ∀ name, name ∈ store.names ↔ ∃ body, json.member? name = some body
  /-- Under each of them it has the relation that is described there. -/
  relations : ∀ store, Store.ofJson json = .ok store → ∀ name relation,
    store.find? name = some relation ↔
      ∃ body, json.member? name = some body ∧ body.IsRelation relation
  /-- Once the columns have been checked and the rows have been read, nothing is at fault. -/
  closes : ∀ name body columns heading items rows, Heading.ofJson name body = .ok columns →
    columns.check = .ok heading → body.rowItems name = .ok items →
      Row.ofJsonItems name heading 0 items = .ok rows →
        Relation.build heading rows = .ok ⟨heading, rows⟩
  /-- Any other value is rejected for its first fault. -/
  rejects : ∀ fault, Store.ofJson json = .error fault ↔ FirstFault json fault
  /-- A row that is told of is the first one at fault. -/
  row : ∀ name index, json.FirstBadRow name index ↔
    ∃ fault, Store.ofJson json = .error fault ∧ fault.row? = some (name, index)

/-! ## Documents in order -/

/-- A value describes one relation at most. -/
theorem Json.IsRelation.unique {body : Json} {a b : Relation} (ha : body.IsRelation a)
    (hb : body.IsRelation b) : a = b := by
  have hloaded : Relation.ofJson "" body = .ok a := Relation.ofJson_eq_ok.mpr ha
  rw [Relation.ofJson_eq_ok.mpr hb] at hloaded
  exact (Except.ok.inj hloaded).symm

/-- Members at fault describe no relation. -/
theorem Json.MemberFault.not_isMember {name : String} {body : Json} {fault : LoadFault}
    (h : MemberFault name body fault) : ¬ IsMember name body := by
  intro hmember
  have herror : Store.bindingOf (name, body) = .error fault := Store.bindingOf_eq_error.mpr h
  obtain ⟨binding, hbinding⟩ :=
    Store.exists_bindingOf_iff.mpr (show IsMember (name, body).1 (name, body).2 from hmember)
  rw [hbinding] at herror
  cases herror

namespace Store

variable {members : List (String × Json)} {store : Store} {bindings : List (String × Relation)}

/-- Bindings have the keys of their members. -/
theorem map_fst_bindings
    (h : List.Forall₂ (fun member binding => bindingOf member = .ok binding) members bindings) :
    bindings.map Prod.fst = members.map Prod.fst := by
  induction h with
  | nil => rfl
  | cons hfirst hmore ih => rw [List.map_cons, List.map_cons, ih, (bindingOf_eq_ok.mp hfirst).1]

/-- Objects in the order of keys are accepted exactly if they are documents. -/
theorem exists_ofJson_iff (h : (Json.object members).Ordered) :
    (∃ store, ofJson (.object members) = .ok store) ↔ (Json.object members).IsDocument := by
  constructor
  · rintro ⟨store, hstore⟩
    obtain ⟨bindings, hbindings, -⟩ := ofJson_eq_ok.mp hstore
    refine ⟨⟨members, rfl⟩, fun name body hmember => ?_⟩
    obtain ⟨binding, -, hbinding⟩ :=
      exists_right_of_forall₂ hbindings ((Json.member?_eq_some h).mp hmember)
    exact exists_bindingOf_iff.mp ⟨binding, hbinding⟩
  · intro hdocument
    cases hload : ofJson (.object members) with
    | ok store => exact ⟨store, rfl⟩
    | error fault =>
      obtain ⟨before, member, after, rfl, -, hfault⟩ := ofJson_eq_error.mp hload
      have hmember : (member.1, member.2) ∈ before ++ member :: after :=
        List.mem_append_right _ List.mem_cons_self
      exact absurd (hdocument.members _ _ ((Json.member?_eq_some h).mpr hmember))
        hfault.not_isMember

/-- The store of a document has the relation of each member. -/
theorem find?_of_ofJson (h : (Json.object members).Ordered)
    (hstore : ofJson (.object members) = .ok store) {name : String} {relation : Relation} :
    store.find? name = some relation ↔
      ∃ body, (Json.object members).member? name = some body ∧ body.IsRelation relation := by
  obtain ⟨bindings, hbindings, rfl⟩ := ofJson_eq_ok.mp hstore
  have hkeys := map_fst_bindings hbindings
  have hnodup : (bindings.map Prod.fst).Nodup := by
    rw [hkeys]
    exact h.nodup
  have hfound : ∀ {body}, (Json.object members).member? name = some body →
      ∃ described, (empty.bindAll bindings).find? name = some described ∧
        body.IsRelation described := by
    intro body hmember
    obtain ⟨⟨key, described⟩, hmem, hbinding⟩ :=
      exists_right_of_forall₂ hbindings ((Json.member?_eq_some h).mp hmember)
    obtain ⟨rfl, -, hdescribed⟩ := bindingOf_eq_ok.mp hbinding
    exact ⟨described, find?_bindAll hnodup hmem, hdescribed⟩
  constructor
  · intro hrelation
    by_cases hname : name ∈ members.map Prod.fst
    · obtain ⟨⟨key, body⟩, hmem, rfl⟩ := List.mem_map.mp hname
      have hmember := (Json.member?_eq_some h).mpr hmem
      obtain ⟨described, hdescribed, hbody⟩ := hfound hmember
      rw [hdescribed] at hrelation
      obtain rfl := Option.some.inj hrelation
      exact ⟨body, hmember, hbody⟩
    · rw [find?_bindAll_of_not_mem (by rwa [hkeys]), find?_empty] at hrelation
      cases hrelation
  · rintro ⟨body, hmember, hrelation⟩
    obtain ⟨described, hdescribed, hbody⟩ := hfound hmember
    rw [hdescribed, hbody.unique hrelation]

/-- The store of a document has the keys of its members as names. -/
theorem names_of_ofJson (h : (Json.object members).Ordered)
    (hstore : ofJson (.object members) = .ok store) (name : String) :
    name ∈ store.names ↔ ∃ body, (Json.object members).member? name = some body := by
  rw [← exists_find?_iff]
  constructor
  · rintro ⟨relation, hrelation⟩
    obtain ⟨body, hmember, -⟩ := (find?_of_ofJson h hstore).mp hrelation
    exact ⟨body, hmember⟩
  · rintro ⟨body, hmember⟩
    obtain ⟨-, relation, hrelation⟩ := ((exists_ofJson_iff h).mp ⟨store, hstore⟩).members _ _ hmember
    exact ⟨relation, (find?_of_ofJson h hstore).mpr ⟨body, hmember, hrelation⟩⟩

/-- The members before the one at fault are those with smaller keys. -/
theorem ofJson_eq_error_iff {json : Json} (h : json.Ordered) {fault : LoadFault} :
    ofJson json = .error fault ↔ FirstFault json fault := by
  cases json with
  | object members =>
    rw [ofJson_eq_error]
    constructor
    · rintro ⟨before, ⟨name, body⟩, after, rfl, hbefore, hfault⟩
      have hmem : (name, body) ∈ before ++ (name, body) :: after :=
        List.mem_append_right _ List.mem_cons_self
      refine .member ((Json.member?_eq_some h).mpr hmem) (fun other more hother hlt => ?_) hfault
      have hfirst : (other, more) ∈ before :=
        (Json.mem_before_iff h).mpr ⟨(Json.member?_eq_some h).mp hother, hlt⟩
      exact hbefore _ hfirst
    · intro hfault
      cases hfault with
      | notAnObject hobject => exact absurd rfl (hobject members)
      | @member name body _ hmember hbefore hfault =>
        obtain ⟨before, after, rfl⟩ := List.append_of_mem ((Json.member?_eq_some h).mp hmember)
        refine ⟨before, (name, body), after, rfl, fun other hother => ?_, hfault⟩
        obtain ⟨hmem, hlt⟩ := (Json.mem_before_iff h).mp hother
        exact hbefore _ _ ((Json.member?_eq_some h).mpr hmem) hlt
  | _ =>
    constructor
    · intro hfault
      obtain rfl := Except.error.inj hfault
      exact .notAnObject fun _ => Json.noConfusion
    · intro hfault
      cases hfault with
      | notAnObject => rfl
      | member hmember => cases hmember

end Store

/-! ## Rows at fault -/

/-- What is wrong with a row is told with its index. -/
theorem Json.RowFault.row?_eq {relation : String} {heading : Heading} {index : ℕ} {json : Json}
    {fault : LoadFault} (h : RowFault relation heading index json fault) :
    fault.row? = some (relation, index) := by
  cases h <;> rfl

/-- Something can be told of whatever is no row. -/
theorem exists_rowFault {heading : Heading} {json : Json} (h : ∀ row, ¬ IsRow heading json row)
    (relation : String) (index : ℕ) : ∃ fault, RowFault relation heading index json fault := by
  cases hread : Row.ofJson relation heading index json with
  | ok row => exact absurd (Row.ofJson_eq_ok.mp hread) (h row)
  | error fault => exact ⟨fault, Row.ofJson_eq_error.mp hread⟩

/-- A row at fault is none. -/
theorem Json.RowFault.not_isRow {relation : String} {heading : Heading} {index : ℕ} {json : Json}
    {fault : LoadFault} (h : RowFault relation heading index json fault) (row : Row) :
    ¬ IsRow heading json row := by
  intro hrow
  have herror := Row.ofJson_eq_error.mpr h
  rw [Row.ofJson_eq_ok.mpr hrow] at herror
  cases herror

/-- Of the faults of a relation only those of its rows are about a row. -/
theorem Json.RelationFault.exists_row {body : Json} {fault : LoadFault} {other : String} {index : ℕ}
    (h : RelationFault name body fault) (hrow : fault.row? = some (other, index)) :
    other = name ∧ ∃ heading good bad rest, body.IsHeading heading ∧
      body.HasRows (good ++ bad :: rest) ∧ (∀ item ∈ good, ∃ row, IsRow heading item row) ∧
        (∀ row, ¬ IsRow heading bad row) ∧ index = good.length := by
  cases h with
  | column _ _ hbad => cases hbad <;> cases hrow
  | row hheading hrows hgood hbad =>
    rw [hbad.row?_eq] at hrow
    cases hrow
    exact ⟨rfl, _, _, _, _, hheading, hrows, hgood, hbad.not_isRow, rfl⟩
  | _ => cases hrow

/-- The loader tells of a row exactly if it is the first one at fault. -/
theorem firstBadRow_iff {json : Json} (h : json.Ordered) (name : String) (index : ℕ) :
    json.FirstBadRow name index ↔
      ∃ fault, Store.ofJson json = .error fault ∧ fault.row? = some (name, index) := by
  simp only [Store.ofJson_eq_error_iff h]
  constructor
  · rintro ⟨body, heading, good, bad, rest, hmember, hbefore, hname, hheading, hrows, hgood, hbad, rfl⟩
    obtain ⟨fault, hfault⟩ := exists_rowFault hbad name good.length
    exact ⟨fault, .member hmember hbefore (.body hname (.row hheading hrows hgood hfault)),
      hfault.row?_eq⟩
  · rintro ⟨fault, hfault, hrow⟩
    cases hfault with
    | notAnObject => cases hrow
    | member hmember hbefore hmemberFault =>
      cases hmemberFault with
      | name => cases hrow
      | body hname hbody =>
        obtain ⟨rfl, heading, good, bad, rest, hheading, hrows, hgood, hbad, hindex⟩ :=
          hbody.exists_row hrow
        exact ⟨_, heading, good, bad, rest, hmember, hbefore, hname, hheading, hrows, hgood, hbad,
          hindex⟩

/-- A value that is no object is no document. -/
theorem exists_object_of_ofJson {json : Json} {store : Store} (h : Store.ofJson json = .ok store) :
    ∃ members, json = .object members := by
  cases json with
  | object members => exact ⟨members, rfl⟩
  | _ => cases h

end Loading

/-- **The loader accepts exactly the documents**, whatever texts are read as numbers.  The store has
the relations that a document describes, under their names.  Any other value is rejected for what is
first at fault in it, in the order of names, of the parts of a relation, and of rows. -/
theorem loading_of_ordered [Decimal.Reader] (json : Json) (h : json.Ordered) : Loading json where
  accepts := by
    constructor
    · rintro ⟨store, hstore⟩
      obtain ⟨members, rfl⟩ := exists_object_of_ofJson hstore
      exact (Store.exists_ofJson_iff h).mp ⟨store, hstore⟩
    · intro hdocument
      obtain ⟨members, rfl⟩ := hdocument.object
      exact (Store.exists_ofJson_iff h).mpr hdocument
  names := by
    intro store hstore
    obtain ⟨members, rfl⟩ := exists_object_of_ofJson hstore
    exact Store.names_of_ofJson h hstore
  relations := by
    intro store hstore name relation
    obtain ⟨members, rfl⟩ := exists_object_of_ofJson hstore
    exact Store.find?_of_ofJson h hstore
  closes := by
    intro name body columns heading items rows hcolumns hheading hitems hrows
    obtain ⟨hnodup, rfl⟩ := Heading.check_eq_ok.mp hheading
    exact Relation.build_of_isRow hnodup (Row.ofJsonItems_eq_ok.mp hrows)
  rejects := fun _ => Store.ofJson_eq_error_iff h
  row := firstBadRow_iff h

/-- Behind a relation without rows, the second row of another one has a day that is in no calendar. -/
theorem loading_of_badDay :
    let document := Json.ofMembers
      [("Users", .ofMembers
        [("schema", .array [
          .ofMembers [("name", .string "id"), ("type", .string "Number")],
          .ofMembers [("name", .string "born"), ("type", .string "date")]]),
        ("rows", .array [
          .array [.number "1e2", .string "2024-02-29"],
          .array [.number "-0.50", .string "2023-02-29"]])]),
      ("Days", .ofMembers [("schema", .array [])])]
    Store.ofJson document = .error (.badCell "Users" 1) ∧ document.FirstBadRow "Users" 1 ∧
      ¬ document.IsDocument := by
  intro document
  have hload : Store.ofJson document = .error (.badCell "Users" 1) := by
    cbv
  have hloading := loading_of_ordered document (Json.ordered_ofMembers _)
  refine ⟨hload, (hloading.row "Users" 1).mpr ⟨_, hload, rfl⟩, fun hdocument => ?_⟩
  obtain ⟨store, hstore⟩ := hloading.accepts.mpr hdocument
  rw [hload] at hstore
  cases hstore

end RelationScript
