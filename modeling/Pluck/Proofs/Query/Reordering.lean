import Mathlib.Data.List.Perm.Basic
import Pluck.Proofs.Query.Evaluation

/-!
# Queries with their clauses in another order

Whether an evaluation succeeds depends on the clauses that there are and not on their order: the keys are distinct or
not, and each path goes on at a value without fields or does not (`exists_evaluate_iff`). What it answers depends on the
order only among clauses with the same key, since of these the last one counts. `evaluate_reordered` says both, for any
options.
-/

namespace Pluck

namespace Query

variable {options : Options} {root : Value} {query other : Query}

theorem filter_entries (root : Value) (key : String) (clauses : List Clause) :
    (clauses.filterMap (Clause.entry? root)).filter (·.1 = key) =
      (clauses.filter (·.key = key)).filterMap (Clause.entry? root) := by
  rw [List.filter_filterMap, List.filterMap_filter]
  apply List.filterMap_congr
  intro clause _
  rw [Clause.entry?]
  cases (root.follow clause.path).value? with
  | none => simp
  | some value => simp [Option.filter]

/-! ### Clauses in another order -/

theorem exists_evaluate_iff :
    (∃ fields, query.evaluate options root = .ok fields) ↔
      (options.onDuplicate = .fail → query.keys.Nodup) ∧
      (options.onMismatch = .fail → ∀ clause ∈ query.clauses, (root.follow clause.path).isMismatch = false) := by
  simp only [evaluate_eq_ok_iff, exists_and_left, exists_eq, and_true]

/-- If no two clauses have the same key, every order keeps the order among those that do. -/
theorem filter_key_eq_of_perm (hperm : other.clauses.Perm query.clauses) (hkeys : query.keys.Nodup) (key : String) :
    other.clauses.filter (·.key = key) = query.clauses.filter (·.key = key) := by
  have hquery : query.clauses.Pairwise fun clause later => clause.key ≠ later.key := List.pairwise_map.1 hkeys
  have hother : other.clauses.Pairwise fun clause later => clause.key ≠ later.key :=
    hperm.symm.pairwise hquery Ne.symm
  apply List.Perm.eq_of_pairwise _ (hother.filter _) (hquery.filter _) (hperm.filter _)
  intro clause later hclause hlater hne
  have hclauseKey : clause.key = key := by simpa using (List.mem_filter.1 hclause).2
  have hlaterKey : later.key = key := by simpa using (List.mem_filter.1 hlater).2
  exact absurd (hclauseKey.trans hlaterKey.symm) hne

/-- Clauses in another order are evaluated exactly if they are in the order that they have. The answer is the same if
those with the same key stand in the same order among each other, and so in any order at all if no key is used twice. -/
theorem evaluate_reordered (hperm : other.clauses.Perm query.clauses) (options : Options) (root : Value) :
    ((∃ fields, other.evaluate options root = .ok fields) ↔ ∃ fields, query.evaluate options root = .ok fields) ∧
    ((∀ key, other.clauses.filter (·.key = key) = query.clauses.filter (·.key = key)) →
      ∀ fields, query.evaluate options root = .ok fields → other.evaluate options root = .ok fields) ∧
    (query.keys.Nodup → ∀ fields, query.evaluate options root = .ok fields →
      other.evaluate options root = .ok fields) := by
  have hsucceeds : (∃ fields, other.evaluate options root = .ok fields) ↔
      ∃ fields, query.evaluate options root = .ok fields := by
    have hkeys : other.keys.Perm query.keys := hperm.map Clause.key
    simp only [exists_evaluate_iff, hkeys.nodup_iff, hperm.mem_iff]
  have hanswers : (∀ key, other.clauses.filter (·.key = key) = query.clauses.filter (·.key = key)) →
      ∀ fields, query.evaluate options root = .ok fields → other.evaluate options root = .ok fields := by
    intro horder fields hfields
    obtain ⟨answer, hanswer⟩ := hsucceeds.2 ⟨fields, hfields⟩
    have hsame : answer = fields := by
      obtain ⟨_, _, rfl⟩ := evaluate_eq_ok_iff.1 hanswer
      obtain ⟨_, _, rfl⟩ := evaluate_eq_ok_iff.1 hfields
      apply Fields.ofList_congr
      intro key
      rw [filter_entries, filter_entries, horder key]
    rw [hanswer, hsame]
  exact ⟨hsucceeds, hanswers, fun hkeys => hanswers (filter_key_eq_of_perm hperm hkeys)⟩

/-- The clause with the key of its own can stand anywhere. The two others cannot be exchanged without another answer, but
they are evaluated in either order. -/
theorem evaluate_reordered_common_key :
    let root : Value := .object [("a", .string "first"), ("b", .string "second"), ("c", .null)]
    let query : Query := ⟨[⟨["a"], "x"⟩, ⟨["b"], "x"⟩, ⟨["c"], "y"⟩]⟩
    let moved : Query := ⟨[⟨["c"], "y"⟩, ⟨["a"], "x"⟩, ⟨["b"], "x"⟩]⟩
    let exchanged : Query := ⟨[⟨["b"], "x"⟩, ⟨["a"], "x"⟩, ⟨["c"], "y"⟩]⟩
    query.evaluate .lenient root = .ok [("x", .string "second"), ("y", .null)] ∧
      moved.clauses.Perm query.clauses ∧
      moved.evaluate .lenient root = .ok [("x", .string "second"), ("y", .null)] ∧
      exchanged.clauses.Perm query.clauses ∧ (∃ fields, exchanged.evaluate .lenient root = .ok fields) ∧
      exchanged.evaluate .lenient root ≠ query.evaluate .lenient root := by
  intro root query moved exchanged
  have hquery : query.evaluate .lenient root = .ok [("x", .string "second"), ("y", .null)] := rfl
  have hmoved : moved.clauses.Perm query.clauses := by decide
  have hexchanged : exchanged.clauses.Perm query.clauses := by decide
  have horder : ∀ key, moved.clauses.filter (·.key = key) = query.clauses.filter (·.key = key) := by
    intro key
    by_cases hkey : "y" = key
    · subst hkey
      rfl
    · simp [moved, query, List.filter_cons, hkey]
  refine ⟨hquery, hmoved, (evaluate_reordered hmoved .lenient root).2.1 horder _ hquery, hexchanged,
    (evaluate_reordered hexchanged .lenient root).1.2 ⟨_, hquery⟩, ?_⟩
  intro hsame
  have hfirst := (List.cons.inj (Except.ok.inj hsame)).1
  simp at hfirst

end Query

end Pluck
