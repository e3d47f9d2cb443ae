import Pluck.Proofs.Query.Evaluation

/-!
# One query after another

A query can be applied to the object that another query has selected. A path then begins with a key of the first query,
and goes on in the value that the clause with this key has found. So the two come to a single query on the document
itself, in which such a path goes on after the path of that clause: `Query.after`. A path that begins with any other
name finds nothing, and its clause is left out. `evaluate_after` says that this makes no difference, whatever is missing
or has no fields on the way.

A clause of the second query and the clause that it becomes arrive at the same place. The exception is a path of the
first query that goes on at a value without fields, which has been passed over as a missing field. From one clause the
courses of the two evaluations follow by induction on the clauses.
-/

namespace Pluck

/-- The clause that finds in a document what `clause` finds in the object that `first` has selected from it, if there is
one. -/
def Clause.after? (first : Query) (clause : Clause) : Option Clause :=
  match clause.path with
  | [] => none
  | name :: rest =>
    (first.clauses.find? (·.key == name)).map fun inner => ⟨inner.path ++ rest, clause.key⟩

/-- The query that selects from a document what `second` selects from the object that `first` has selected. -/
def Query.after (second first : Query) : Query :=
  ⟨second.clauses.filterMap (Clause.after? first)⟩

theorem Clause.key_of_after? {first : Query} {clause fused : Clause} (hafter : clause.after? first = some fused) :
    fused.key = clause.key := by
  rw [after?] at hafter
  split at hafter
  · cases hafter
  · obtain ⟨inner, _, rfl⟩ := Option.map_eq_some_iff.1 hafter
    rfl

/-! ### What the first query has selected -/

theorem Clause.fst_of_entry? {root : Value} {clause : Clause} {entry : String × Value}
    (hentry : clause.entry? root = some entry) : entry.1 = clause.key := by
  obtain ⟨value, _, rfl⟩ := Option.map_eq_some_iff.1 hentry
  rfl

section Entries

variable {root : Value} {clauses : List Clause} (hkeys : (clauses.map Clause.key).Nodup)

include hkeys

theorem nodup_entries : ((clauses.filterMap (Clause.entry? root)).map Prod.fst).Nodup := by
  rw [List.Nodup, List.pairwise_map] at hkeys ⊢
  rw [List.pairwise_filterMap]
  refine hkeys.imp ?_
  intro clause other hne entry hentry later hlater
  rwa [Clause.fst_of_entry? hentry, Clause.fst_of_entry? hlater]

/-- Only one clause writes a key, so that nothing is found under it if this clause finds nothing. -/
theorem lookup_entries (key : String) :
    (clauses.filterMap (Clause.entry? root)).lookup key =
      (clauses.find? (·.key == key)).bind fun clause => (root.follow clause.path).value? := by
  induction clauses with
  | nil => rfl
  | cons clause rest ih =>
    obtain ⟨hkey, hrest⟩ := List.nodup_cons.1 hkeys
    rw [List.filterMap_cons]
    by_cases hsame : clause.key = key
    · subst hsame
      rw [List.find?_cons_of_pos (by simp), Option.bind_some]
      cases hvalue : (root.follow clause.path).value? with
      | some value => simp only [Clause.entry?, hvalue, Option.map_some, Fields.lookup_cons_eq, if_true]
      | none =>
        simp only [Clause.entry?, hvalue, Option.map_none]
        apply Fields.lookup_eq_none_of_not_mem
        intro hmem
        obtain ⟨entry, hentry, heq⟩ := List.mem_map.1 hmem
        obtain ⟨other, hother, hadds⟩ := List.mem_filterMap.1 hentry
        rw [Clause.fst_of_entry? hadds] at heq
        exact hkey (heq ▸ List.mem_map_of_mem hother)
    · rw [List.find?_cons_of_neg (by simpa using hsame), ← ih hrest]
      cases hvalue : (root.follow clause.path).value? with
      | some value => simp only [Clause.entry?, hvalue, Option.map_some, Fields.lookup_cons_eq, if_neg (Ne.symm hsame)]
      | none => simp only [Clause.entry?, hvalue, Option.map_none]

end Entries

theorem Query.lookup_of_evaluate {options : Options} {root : Value} {query : Query} {fields : Fields Value}
    (hkeys : query.keys.Nodup) (hquery : query.evaluate options root = .ok fields) (key : String) :
    fields.lookup key = (query.clauses.find? (·.key == key)).bind fun clause => (root.follow clause.path).value? := by
  obtain ⟨_, _, rfl⟩ := evaluate_eq_ok_iff.1 hquery
  rw [Fields.lookup_ofList, Fields.lookup_reverse (nodup_entries hkeys), lookup_entries hkeys]

/-! ### One clause of the second query -/

section Clause

variable {options : Options} {root : Value} {first : Query} {fields : Fields Value} {clause : Clause}
  (hkeys : first.keys.Nodup) (hfirst : first.evaluate options root = .ok fields) (hpath : clause.path ≠ [])

include hkeys hfirst hpath

theorem Clause.resolve_of_after?_eq_none (hafter : clause.after? first = none) :
    clause.resolve options (.object fields) = .ok none := by
  obtain ⟨name, rest, hcons⟩ := List.exists_cons_of_ne_nil hpath
  simp only [after?, hcons, Option.map_eq_none_iff] at hafter
  rw [resolve, hcons, Document.follow_object_cons, Query.lookup_of_evaluate hkeys hfirst, hafter]
  rfl

/-- The two clauses arrive at the same place, unless the path of the first query's clause goes on at a value without
fields. The options then take this for a missing field, since the first query has been evaluated. -/
theorem Clause.resolve_of_after?_eq_some {fused : Clause} (hafter : clause.after? first = some fused) :
    (clause.resolve options (.object fields)).mapError EvaluationError.withoutPath =
      (fused.resolve options root).mapError EvaluationError.withoutPath := by
  obtain ⟨name, rest, hcons⟩ := List.exists_cons_of_ne_nil hpath
  simp only [after?, hcons, Option.map_eq_some_iff] at hafter
  obtain ⟨inner, hinner, rfl⟩ := hafter
  have hlookup := Query.lookup_of_evaluate hkeys hfirst name
  rw [hinner, Option.bind_some] at hlookup
  have hobject := Document.follow_object_cons fields name rest
  rw [hlookup, ← hcons] at hobject
  have hroot := Document.follow_append root inner.path rest
  cases harrival : root.follow inner.path with
  | found | missing =>
    rw [harrival] at hobject hroot
    exact mapError_resolve_congr (hobject.trans hroot.symm)
  | mismatch field kind =>
    rw [harrival] at hobject hroot
    have hskip : options.onMismatch = .skip := by
      cases hmismatch : options.onMismatch with
      | skip => rfl
      | fail =>
        have hpaths := (Query.evaluate_eq_ok_iff.1 hfirst).2.1 hmismatch inner (List.mem_of_find?_eq_some hinner)
        rw [harrival] at hpaths
        cases hpaths
    rw [resolve, resolve, hobject, hroot]
    simp only [Arrival.value?, Option.elim_none, Arrival.goOn, hskip]

end Clause

/-! ### The clauses one after the other -/

theorem Course.report_after {options : Options} {root : Value} {first : Query} {fields : Fields Value}
    (hoverwrite : options.onDuplicate = .overwrite) (hkeys : first.keys.Nodup)
    (hfirst : first.evaluate options root = .ok fields) {clauses : List Clause}
    (hpaths : ∀ clause ∈ clauses, clause.path ≠ []) (used others : List String) :
    (ofClauses options (.object fields) used clauses).report =
      (ofClauses options root others (clauses.filterMap (Clause.after? first))).report := by
  induction clauses generalizing used others with
  | nil => rfl
  | cons clause rest ih =>
    obtain ⟨hpath, hrest⟩ := List.forall_mem_cons.1 hpaths
    cases hafter : clause.after? first with
    | none =>
      have hnone := Clause.resolve_of_after?_eq_none hkeys hfirst hpath hafter
      rw [List.filterMap_cons_none hafter, report_ofClauses_cons, Clause.outcome_of_overwrite hoverwrite, hnone,
        ih hrest (clause.key :: used) others]
      rfl
    | some fused =>
      have htwin := Clause.resolve_of_after?_eq_some hkeys hfirst hpath hafter
      rw [List.filterMap_cons_some hafter, report_ofClauses_cons, report_ofClauses_cons,
        Clause.outcome_of_overwrite hoverwrite, Clause.outcome_of_overwrite hoverwrite, htwin,
        Clause.key_of_after? hafter, ih hrest (clause.key :: used) (clause.key :: others)]

/-- What a query selects from the object that another query has selected, a single query selects from the document. An
error is the same up to the path that it names. -/
theorem Query.evaluate_after {options : Options} {root : Value} {first : Query} {fields : Fields Value}
    (hoverwrite : options.onDuplicate = .overwrite) (hkeys : first.keys.Nodup)
    (hfirst : first.evaluate options root = .ok fields) {second : Query}
    (hpaths : ∀ clause ∈ second.clauses, clause.path ≠ []) :
    (second.evaluate options (.object fields)).mapError EvaluationError.withoutPath =
      ((second.after first).evaluate options root).mapError EvaluationError.withoutPath :=
  Course.mapError_result_congr (Course.report_after hoverwrite hkeys hfirst hpaths [] [])

/-- The clause that fails has another path in the single query, and only this makes the errors differ. -/
theorem Query.evaluate_after_user :
    let first : Query := ⟨[⟨["user"], "u"⟩, ⟨["missing"], "m"⟩]⟩
    let second : Query := ⟨[⟨["m", "x"], "x"⟩, ⟨["user"], "y"⟩, ⟨["u", "name", "first"], "z"⟩]⟩
    let root : Value := .object [("user", .object [("name", .string "text")])]
    let fields : Fields Value := [("u", .object [("name", .string "text")])]
    first.keys.Nodup ∧ first.evaluate ⟨.fail, .overwrite⟩ root = .ok fields ∧
      (∀ clause ∈ second.clauses, clause.path ≠ []) ∧
      second.evaluate ⟨.fail, .overwrite⟩ (.object fields) = .error (.mismatch "u.name.first" "first" .string) ∧
      (second.after first).evaluate ⟨.fail, .overwrite⟩ root = .error (.mismatch "user.name.first" "first" .string) ∧
      (second.evaluate ⟨.fail, .overwrite⟩ (.object fields)).mapError EvaluationError.withoutPath =
        ((second.after first).evaluate ⟨.fail, .overwrite⟩ root).mapError EvaluationError.withoutPath :=
  ⟨by decide, rfl, by decide, rfl, rfl, evaluate_after rfl (by decide) rfl (by decide)⟩

end Pluck
