/-
# Independent lines

A query reads the relations named in it and no others, at whatever depth they are named, and the
labels of its products come from the query itself.  So two lines in a row may change places if
neither binds what the other one reads or binds.

* `Query.evaluate_congr` : what a query reads of a store;
* `isSkipped_of_ofLine` : statements are not skipped;
* `Script.run_cons_eq_ok` : a run by its first statement;
* `run_swap_eq_ok` : two lines that change places.
-/
import RelationScript.Proofs.Query.Writing
import RelationScript.Proofs.Script.Runs

namespace RelationScript

/-! ## What queries read -/

namespace Query

/-- Stores that agree on the relations named in a query agree on its value. -/
theorem evaluate_congr {store store' : Store} (options : Options) {query : Query}
    (h : ∀ name ∈ query.sources, store.find? name = store'.find? name) :
    query.evaluate store options = query.evaluate store' options := by
  induction query with
  | named name => rw [evaluate, evaluate, h name (List.mem_singleton_self name)]
  | combine operator left right ihleft ihright | product left right ihleft ihright =>
    rw [sources, List.forall_mem_append] at h
    rw [evaluate, evaluate, ihleft h.1, ihright h.2]
  | project base columns text ih | select base condition text ih =>
    rw [evaluate, evaluate, ih h]

/-- A binding that a query does not name has no part in its value. -/
theorem evaluate_bind {name : String} {query : Query} (h : name ∉ query.sources)
    (store : Store) (options : Options) (relation : Relation) :
    query.evaluate (store.bind name relation) options = query.evaluate store options := by
  refine evaluate_congr options fun other hother => ?_
  rw [Store.find?_bind, if_neg (ne_of_mem_of_not_mem hother h).symm]

end Query

/-- Two names can be bound in either order. -/
theorem Store.bind_comm {name name' : String} (h : name ≠ name') (store : Store)
    (relation relation' : Relation) :
    (store.bind name relation).bind name' relation' =
      (store.bind name' relation').bind name relation := by
  refine Std.ExtTreeMap.ext_getElem? fun other => ?_
  show ((store.bind name relation).bind name' relation').find? other =
    ((store.bind name' relation').bind name relation).find? other
  rw [Store.find?_bind, Store.find?_bind, Store.find?_bind, Store.find?_bind]
  by_cases hname : name = other
  · rw [if_pos hname, if_pos hname, if_neg fun hname' => h (hname.trans hname'.symm)]
  · rw [if_neg hname, if_neg hname]

/-! ## Statements are not skipped -/

/-- No token starts like a comment. -/
theorem Token.Spells.ne_hash {token : Token} {c : Char} {cs : List Char}
    (h : Spells token (c :: cs)) : c ≠ '#' := by
  rintro rfl
  have hscan := scan_of_spells h (stops_nil token _)
  rw [List.append_nil] at hscan
  have hstray : (scan ('#' :: cs)).outcome = .error (.stray '#') := rfl
  rw [hscan] at hstray
  cases hstray

theorem isSkipped_of_ofLine {line : String} {statement : Statement}
    (h : Statement.ofLine line = .ok statement) : Script.isSkipped line = false := by
  obtain ⟨lexemes, hlexemes, hread⟩ := ofLine_eq_ok.mp h
  have hlexes : Lexes line.toList lexemes := lexes_of_lexemes hlexemes
  rw [Script.isSkipped]
  generalize line.toList = cs at hlexes
  cases hlexes with
  | endOfLine hgap =>
    -- Nothing but blanks is no statement.
    rw [readStatement, readQuery, readFromOperand_eq] at hread
    cases hread
  | @token token gap text rest more hgap hspells hstops hmore =>
    obtain ⟨c, cs, rfl, hblank⟩ := hspells.exists_cons
    obtain ⟨left, htrim⟩ := Text.exists_trim_eq_cons hblank (cs ++ rest)
    have hgap : Text.trim (gap ++ (c :: cs ++ rest)) = c :: left := by
      rw [← htrim, Text.trim, Text.trimStart, List.dropWhile_append_of_pos hgap]
      rfl
    rw [hgap]
    exact beq_eq_false_iff_ne.mpr hspells.ne_hash

/-! ## Runs by their first statement -/

namespace Script

variable {options : Options} {store : Store} {line : String} {lines : List String}

theorem run_append (options : Options) (store : Store) (before after : List String) :
    run options store (before ++ after) =
      run options store before >>= fun reached => run options reached after := by
  induction before generalizing store with
  | nil => rfl
  | cons line before ih =>
    cases hexecute : execute options store line with
    | error fault =>
      rw [List.cons_append, run_cons_of_error hexecute, run_cons_of_error hexecute]
      rfl
    | ok outcome =>
      obtain ⟨bound, reached⟩ := outcome
      rw [List.cons_append, run_cons_of_ok hexecute, run_cons_of_ok hexecute, ih]

/-- A statement in front of other lines has to have a value, which they find bound. -/
theorem run_cons_eq_ok {statement : Statement} (h : Statement.ofLine line = .ok statement)
    {final : Store} :
    run options store (line :: lines) = .ok final ↔
      ∃ relation, statement.query.evaluate store options = .ok relation ∧
        run options (store.bind statement.target relation) lines = .ok final := by
  have hskipped := isSkipped_of_ofLine h
  constructor
  · intro hrun
    obtain ⟨⟨bound, after⟩, hexecute, hrun⟩ := bind_eq_ok.mp hrun
    rcases execute_eq_ok.mp hexecute with ⟨hskips, -⟩ | ⟨-, first, relation, hline, hvalue, -, rfl⟩
    · rw [hskipped] at hskips
      cases hskips
    · obtain rfl : statement = first := Except.ok.inj (h.symm.trans hline)
      exact ⟨relation, hvalue, hrun⟩
  · rintro ⟨relation, hvalue, hrun⟩
    have hexecute : execute options store line = .ok (some statement.target, _) :=
      execute_eq_ok.mpr (Or.inr ⟨hskipped, statement, relation, h, hvalue, rfl, rfl⟩)
    rw [run_cons_of_ok hexecute]
    exact hrun

end Script

/-! ## Lines that change places -/

/-- **Independent lines commute.**  Two lines in a row bind different names, and neither binds a
name that occurs in the query of the other.  Then a script succeeds with them if it does so with
the two exchanged, and ends with the same store. -/
theorem run_swap_eq_ok {line line' : String} {statement statement' : Statement}
    (hline : Statement.ofLine line = .ok statement)
    (hline' : Statement.ofLine line' = .ok statement')
    (htargets : statement.target ≠ statement'.target)
    (hunread : statement.target ∉ statement'.query.sources)
    (hunread' : statement'.target ∉ statement.query.sources)
    (options : Options) (store : Store) (before after : List String) (final : Store) :
    Script.run options store (before ++ line :: line' :: after) = .ok final ↔
      Script.run options store (before ++ line' :: line :: after) = .ok final := by
  rw [Script.run_append, Script.run_append, bind_eq_ok, bind_eq_ok]
  refine exists_congr fun reached => and_congr_right fun _ => ?_
  simp only [Script.run_cons_eq_ok hline, Script.run_cons_eq_ok hline',
    Query.evaluate_bind hunread, Query.evaluate_bind hunread']
  constructor
  · rintro ⟨relation, hvalue, relation', hvalue', hrun⟩
    exact ⟨relation', hvalue', relation, hvalue, Store.bind_comm htargets reached _ _ ▸ hrun⟩
  · rintro ⟨relation', hvalue', relation, hvalue, hrun⟩
    exact ⟨relation, hvalue, relation', hvalue', (Store.bind_comm htargets reached _ _).symm ▸ hrun⟩

/-- An intersection and a union of the same two relations, before a line that reads both of them
and binds one of these relations anew. -/
theorem run_swap_of_setOperators :
    Statement.ofLine "A & B -> C" =
        .ok ⟨.combine .intersection (.named "A") (.named "B"), "C"⟩ ∧
      Statement.ofLine "A | B -> D" = .ok ⟨.combine .union (.named "A") (.named "B"), "D"⟩ ∧
      "C" ≠ "D" ∧ "C" ∉ Query.sources (.combine .union (.named "A") (.named "B")) ∧
      "D" ∉ Query.sources (.combine .intersection (.named "A") (.named "B")) ∧
      ∃ final, final.find? "A" = some ⟨[⟨"C.x", .string⟩, ⟨"D.x", .string⟩],
          [[.text "a", .text "a"], [.text "a", .text "b"]]⟩ ∧
        Script.run ⟨true⟩ ((Store.empty.bind "A" ⟨[⟨"x", .string⟩], [[.text "a"]]⟩).bind "B"
          ⟨[⟨"x", .string⟩], [[.text "a"], [.text "b"]]⟩)
          ["A & B -> C", "A | B -> D", "C * D -> A"] = .ok final ∧
        Script.run ⟨true⟩ ((Store.empty.bind "A" ⟨[⟨"x", .string⟩], [[.text "a"]]⟩).bind "B"
          ⟨[⟨"x", .string⟩], [[.text "a"], [.text "b"]]⟩)
          ["A | B -> D", "A & B -> C", "C * D -> A"] = .ok final := by
  have hline : Statement.ofLine "A & B -> C" =
      .ok ⟨.combine .intersection (.named "A") (.named "B"), "C"⟩ := by cbv
  have hline' : Statement.ofLine "A | B -> D" =
      .ok ⟨.combine .union (.named "A") (.named "B"), "D"⟩ := by cbv
  have hline'' : Statement.ofLine "C * D -> A" =
      .ok ⟨.product (.named "C") (.named "D"), "A"⟩ := by cbv
  have hrun : Script.run ⟨true⟩ ((Store.empty.bind "A" ⟨[⟨"x", .string⟩], [[.text "a"]]⟩).bind "B"
      ⟨[⟨"x", .string⟩], [[.text "a"], [.text "b"]]⟩)
      ([] ++ "A & B -> C" :: "A | B -> D" :: ["C * D -> A"]) = .ok _ :=
    (Script.run_cons_eq_ok hline).mpr ⟨⟨[⟨"x", .string⟩], [[.text "a"]]⟩, by cbv,
      (Script.run_cons_eq_ok hline').mpr ⟨⟨[⟨"x", .string⟩], [[.text "a"], [.text "b"]]⟩, by cbv,
        (Script.run_cons_eq_ok hline'').mpr ⟨⟨[⟨"C.x", .string⟩, ⟨"D.x", .string⟩],
          [[.text "a", .text "a"], [.text "a", .text "b"]]⟩, by cbv, rfl⟩⟩⟩
  refine ⟨hline, hline', by decide, by decide, by decide, _, ?_, hrun, ?_⟩
  · rw [Store.find?_bind, if_pos rfl]
  · exact (run_swap_eq_ok hline hline' (by decide) (by decide) (by decide) ⟨true⟩ _ []
      ["C * D -> A"] _).mp hrun

end RelationScript
