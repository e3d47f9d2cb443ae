import Pluck.Proofs.Json.Conversion
import Pluck.Proofs.Query.Joining
import Pluck.Proofs.Query.Names

/-!
# What a selection is made of

Every value in the answer to a query is a part of the document. It lies as deep in it as its path is long, and the path
of a clause that was read from a text has at least one name. So the object around the selected values is no deeper than
the document, unless the document has no containers at all: `depth_of_select`. What holds of all parts of the document
holds of the selection: it is finite if the document is, and ordered (`isFinite_of_select`, `isOrdered_of_select`).
-/

namespace Pluck

theorem Document.contains_of_follow {root value : Value} {path : List String}
    (harrival : root.follow path = .found value) : root.Contains value ∧ value.depth + path.length ≤ root.depth := by
  induction path generalizing root with
  | nil =>
    obtain rfl := Arrival.found.inj harrival
    exact ⟨.self root, Nat.le_refl _⟩
  | cons name rest ih =>
    cases root with
    | object fields =>
      rw [follow_object_cons] at harrival
      cases hfield : fields.lookup name with
      | none => simp [hfield, Arrival.goOn] at harrival
      | some field =>
        rw [hfield] at harrival
        obtain ⟨hcontains, hdepth⟩ := ih harrival
        have hmem := Fields.mem_of_lookup hfield
        have hlt : field.depth < (object fields).depth := depth_lt_of_mem hmem
        rw [List.length_cons]
        exact ⟨.field hmem hcontains, by omega⟩
    | null | boolean | number | string | array => simp [follow, lookup] at harrival

namespace Query

variable {options : Options} {text : String} {root value : Value} {query : Query} {fields : Fields Value}

theorem exists_clause_of_mem (hquery : query.evaluate options root = .ok fields) {field : String × Value}
    (hfield : field ∈ fields) : ∃ clause ∈ query.clauses, root.follow clause.path = .found field.2 := by
  obtain ⟨_, _, rfl⟩ := evaluate_eq_ok_iff.1 hquery
  obtain ⟨clause, hclause, hentry⟩ := List.mem_filterMap.1 (Fields.mem_of_mem_ofList hfield)
  obtain ⟨value, hvalue, rfl⟩ := Option.map_eq_some_iff.1 hentry
  exact ⟨clause, hclause, Arrival.eq_found_of_value? hvalue⟩

/-- A selection is the document itself, or it holds parts of it that lie below its root. -/
theorem eq_or_exists_of_select (hselect : select options text root = .ok value) :
    value = root ∨ ∃ fields, value = .object fields ∧ Fields.Sorted fields ∧
      ∀ field ∈ fields, root.Contains field.2 ∧ field.2.depth < root.depth := by
  by_cases hempty : text.isEmpty
  · rw [select, if_pos hempty] at hselect
    exact .inl (Except.ok.inj hselect).symm
  · cases hread : ofString text with
    | error reason => simp [select, hempty, hread] at hselect
    | ok query =>
      obtain ⟨fields, hfields, rfl⟩ := (select_eq_ok_iff hread).1 hselect
      refine .inr ⟨fields, rfl, sorted_of_evaluate hfields, fun field hfield => ?_⟩
      obtain ⟨clause, hclause, harrival⟩ := exists_clause_of_mem hfields hfield
      obtain ⟨hcontains, hdepth⟩ := Document.contains_of_follow harrival
      have hpath := List.length_pos_iff.2 ((readable_of_ofString hread).1.path_ne_nil clause hclause)
      exact ⟨hcontains, by omega⟩

theorem depth_of_select (hselect : select options text root = .ok value) : value.depth ≤ max 1 root.depth := by
  rcases eq_or_exists_of_select hselect with rfl | ⟨fields, rfl, _, hfields⟩
  · exact Nat.le_max_right _ _
  · cases hdepth : root.depth with
    | zero =>
      refine Document.depth_object_le_iff.2 fun field hfield => ?_
      have hlt := (hfields field hfield).2
      omega
    | succ depth =>
      refine Nat.le_trans (Document.depth_object_le_iff.2 fun field hfield => ?_) (Nat.le_max_right _ _)
      have hlt := (hfields field hfield).2
      omega

theorem isOrdered_of_select (hselect : select options text root = .ok value) (hroot : root.IsOrdered) :
    value.IsOrdered := by
  rcases eq_or_exists_of_select hselect with rfl | ⟨fields, rfl, hsorted, hfields⟩
  · exact hroot
  · rw [Document.isOrdered_object_iff]
    exact ⟨hsorted, fun field hfield => hroot.of_contains (hfields field hfield).1⟩

theorem isFinite_of_select (hselect : select options text root = .ok value) (hroot : root.IsFinite) :
    value.IsFinite := by
  rcases eq_or_exists_of_select hselect with rfl | ⟨fields, rfl, _, hfields⟩
  · exact hroot
  · intro number hnumber
    cases hnumber with
    | field hfield hpart => exact (hroot.of_contains (hfields _ hfield).1) number hpart

end Query

end Pluck
