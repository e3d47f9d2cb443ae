import Pluck.Proofs.Document.Paths
import Pluck.Proofs.Query.Evaluation

/-!
# What an answer holds

The answer to a query has a field for each key of which some clause leads to a value. Several clauses may have the same
key. The field is then from the last one of those that lead to a value: a later clause that leads nowhere takes nothing
away (`lookup_collected_iff`). None of this depends on the options, which decide only whether there is an answer at all
(`evaluate_collects`).
-/

namespace Pluck

theorem Clause.entry?_eq_some_iff {root : Value} {clause : Clause} {entry : String × Value} :
    clause.entry? root = some entry ↔ clause.key = entry.1 ∧ root.Leads clause.path entry.2 := by
  obtain ⟨key, value⟩ := entry
  rw [Clause.entry?, Option.map_eq_some_iff, ← Document.follow_eq_found_iff]
  constructor
  · rintro ⟨found, hfound, heq⟩
    cases heq
    exact ⟨rfl, Arrival.eq_found_of_value? hfound⟩
  · rintro ⟨rfl, hfound⟩
    exact ⟨value, by rw [hfound]; rfl, rfl⟩

namespace Query

variable {root : Value} {clauses : List Clause}

theorem mem_names_collected_iff {key : String} :
    key ∈ (Fields.ofList (clauses.filterMap (Clause.entry? root))).map Prod.fst ↔
      ∃ clause ∈ clauses, clause.key = key ∧ ∃ value, root.Leads clause.path value := by
  rw [Fields.mem_names_ofList]
  simp only [List.mem_map, List.mem_filterMap, Clause.entry?_eq_some_iff]
  constructor
  · rintro ⟨entry, ⟨clause, hclause, hkey, hvalue⟩, rfl⟩
    exact ⟨clause, hclause, hkey, entry.2, hvalue⟩
  · rintro ⟨clause, hclause, hkey, value, hvalue⟩
    exact ⟨(key, value), ⟨clause, hclause, hkey, hvalue⟩, rfl⟩

theorem lookup_collected_iff {key : String} {value : Value} :
    (Fields.ofList (clauses.filterMap (Clause.entry? root))).lookup key = some value ↔
      ∃ before clause after, clauses = before ++ clause :: after ∧ clause.key = key ∧ root.Leads clause.path value ∧
        ∀ later ∈ after, later.key = key → ¬∃ other, root.Leads later.path other := by
  rw [Fields.lookup_ofList_eq_some_iff]
  constructor
  · rintro ⟨entries, others, hentries, hothers⟩
    obtain ⟨before, from_, rfl, _, hfrom⟩ := List.filterMap_eq_append_iff.1 hentries
    obtain ⟨skipped, clause, after, rfl, _, hclause, hafter⟩ := List.filterMap_eq_cons_iff.1 hfrom
    obtain ⟨hkey, hvalue⟩ := Clause.entry?_eq_some_iff.1 hclause
    refine ⟨before ++ skipped, clause, after, (List.append_assoc ..).symm, hkey, hvalue, ?_⟩
    rintro later hlater hlaterKey ⟨other, hother⟩
    have hentry : (key, other) ∈ others :=
      hafter ▸ List.mem_filterMap.2 ⟨later, hlater, Clause.entry?_eq_some_iff.2 ⟨hlaterKey, hother⟩⟩
    exact hothers _ hentry rfl
  · rintro ⟨before, clause, after, rfl, hkey, hvalue, hafter⟩
    have hclause : clause.entry? root = some (key, value) := Clause.entry?_eq_some_iff.2 ⟨hkey, hvalue⟩
    refine ⟨before.filterMap (Clause.entry? root), after.filterMap (Clause.entry? root), ?_, ?_⟩
    · rw [List.filterMap_append, List.filterMap_cons_some hclause]
    · rintro entry hentry rfl
      obtain ⟨later, hlater, hadds⟩ := List.mem_filterMap.1 hentry
      obtain ⟨hlaterKey, hother⟩ := Clause.entry?_eq_some_iff.1 hadds
      exact hafter later hlater hlaterKey ⟨entry.2, hother⟩

/-- An answer has the keys of the clauses whose paths lead to a value, each of them once. Under a key is the value of
the last clause with this key whose path leads to one. So there is no more than one answer, whatever the options are,
and if they refuse nothing there is always one. -/
theorem evaluate_collects (query : Query) (root : Value) :
    (∀ options fields, query.evaluate options root = .ok fields →
      fields.Sorted ∧
      (∀ key, key ∈ fields.map Prod.fst ↔
        ∃ clause ∈ query.clauses, clause.key = key ∧ ∃ value, root.Leads clause.path value) ∧
      ∀ key value, fields.lookup key = some value ↔
        ∃ before clause after, query.clauses = before ++ clause :: after ∧ clause.key = key ∧
          root.Leads clause.path value ∧
          ∀ later ∈ after, later.key = key → ¬∃ other, root.Leads later.path other) ∧
    (∀ options others fields rest, query.evaluate options root = .ok fields →
      query.evaluate others root = .ok rest → fields = rest) ∧
    ∃ fields, query.evaluate .lenient root = .ok fields := by
  refine ⟨fun options fields hquery => ?_, fun options others fields rest hfields hrest => ?_, ?_⟩
  · obtain ⟨_, _, rfl⟩ := evaluate_eq_ok_iff.1 hquery
    exact ⟨Fields.sorted_ofList _, fun key => mem_names_collected_iff, fun key value => lookup_collected_iff⟩
  · obtain ⟨_, _, rfl⟩ := evaluate_eq_ok_iff.1 hfields
    obtain ⟨_, _, rfl⟩ := evaluate_eq_ok_iff.1 hrest
    rfl
  · exact ⟨_, evaluate_eq_ok_iff.2 ⟨nofun, nofun, rfl⟩⟩

/-- A null at the end of a path replaces what an earlier clause has found. The clauses after it find nothing, at null,
at a missing field and at a text, and replace nothing. -/
theorem evaluate_collects_null :
    let root : Value := .object [("id", .null), ("name", .string "text"), ("user", .object [("age", .boolean true)])]
    let query : Query :=
      ⟨[⟨["user", "age"], "x"⟩, ⟨["id"], "x"⟩, ⟨["id", "age"], "x"⟩, ⟨["user", "id"], "x"⟩, ⟨["name", "first"], "y"⟩]⟩
    query.evaluate .lenient root = .ok [("x", .null)] ∧
      (∃ before clause after, query.clauses = before ++ clause :: after ∧ clause.key = "x" ∧
        root.Leads clause.path .null ∧ ∀ later ∈ after, later.key = "x" → ¬∃ other, root.Leads later.path other) ∧
      ¬∃ clause ∈ query.clauses, clause.key = "y" ∧ ∃ value, root.Leads clause.path value := by
  intro root query
  have hquery : query.evaluate .lenient root = .ok [("x", .null)] := rfl
  obtain ⟨_, hkeys, hvalues⟩ := (evaluate_collects query root).1 .lenient _ hquery
  exact ⟨hquery, (hvalues "x" .null).1 rfl, fun hclause => absurd ((hkeys "y").2 hclause) (by decide)⟩

end Query

end Pluck
