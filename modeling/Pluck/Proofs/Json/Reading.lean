import Pluck.Json.Reader
import Pluck.Proofs.Document.Trees

/-!
# What is read

A document that was read is as the printer needs it: no deeper than the reader goes, and ordered, whatever the order in
which the text has its fields (`isOrdered_of_ofString?`, `depth_of_ofString?`). Whatever is known of all that the reader
inside a container gives is known of its items, and the depth of the reader then leads through the document.
-/

namespace Pluck.Json

section Items

variable {α : Type} {P : α → Prop} {item : Reader α} {close : Char} {text rest : List Char} {values : List α}
  (hitem : ∀ {text rest : List Char} {value : α}, item.read text = some (value, rest) → P value)

include hitem

theorem forall_mem_of_itemsFrom? (hread : itemsFrom? close item text = some (values, rest)) :
    ∀ value ∈ values, P value := by
  fun_induction itemsFrom? close item text generalizing values with
  | case1 | case2 | case5 => cases hread
  | case3 text first before found next start =>
    cases hread
    exact List.forall_mem_singleton.2 (hitem found)
  | case4 text first before found next start _ _ _ _ ih =>
    obtain ⟨⟨later, _⟩, hlater, hvalues⟩ := Option.map_eq_some_iff.1 hread
    cases hvalues
    exact List.forall_mem_cons.2 ⟨hitem found, ih hlater⟩

theorem forall_mem_of_items? (hread : items? close item text = some (values, rest)) : ∀ value ∈ values, P value := by
  unfold items? at hread
  split at hread
  · cases hread
  · split at hread
    · cases hread
      exact nofun
    · exact forall_mem_of_itemsFrom? hitem hread

end Items

theorem exists_read_of_field? {inner : Reader Json} {text rest : List Char} {field : String × Json}
    (hread : field? inner text = some (field, rest)) : ∃ before, inner.read before = some (field.2, rest) := by
  simp only [field?, Option.bind_eq_bind, Option.bind_eq_some_iff] at hread
  obtain ⟨⟨_, _⟩, _, hread⟩ := hread
  split at hread
  · obtain ⟨⟨_, _⟩, hvalue, hresult⟩ := Option.bind_eq_some_iff.1 hread
    cases hresult
    exact ⟨_, hvalue⟩
  · cases hread

theorem depth_of_scalar? {text rest : List Char} {json : Json} (hread : scalar? text = some (json, rest)) :
    json.depth = 0 := by
  unfold scalar? at hread
  split at hread
  case h_4 | h_5 =>
    obtain ⟨_, _, hresult⟩ := Option.map_eq_some_iff.1 hread
    cases hresult
    rfl
  all_goals cases hread; rfl

theorem isOrdered_and_depth_of_read {depth : Nat} {text rest : List Char} {json : Json}
    (hread : (valueReader depth).read text = some (json, rest)) : json.IsOrdered ∧ json.depth ≤ depth := by
  induction depth generalizing text rest json with
  | zero =>
    have hdepth := depth_of_scalar? hread
    exact ⟨Document.isOrdered_of_depth_eq_zero hdepth, Nat.le_of_eq hdepth⟩
  | succ depth ih =>
    change nested? (valueReader depth) text = _ at hread
    unfold nested? at hread
    split at hread
    · obtain ⟨⟨items, _⟩, hitems, hresult⟩ := Option.map_eq_some_iff.1 hread
      cases hresult
      have hall := forall_mem_of_items? ih hitems
      rw [Document.isOrdered_array_iff, Document.depth_array_le_iff]
      exact ⟨fun item hitem => (hall item hitem).1, fun item hitem => (hall item hitem).2⟩
    · obtain ⟨⟨entries, _⟩, hentries, hresult⟩ := Option.map_eq_some_iff.1 hread
      cases hresult
      have hall : ∀ entry ∈ entries, entry.2.IsOrdered ∧ entry.2.depth ≤ depth := by
        refine forall_mem_of_items? (fun hfield => ?_) hentries
        obtain ⟨_, hvalue⟩ := exists_read_of_field? hfield
        exact ih hvalue
      rw [Document.ofEntries, Document.isOrdered_object_iff, Document.depth_object_le_iff]
      exact ⟨⟨Fields.sorted_ofList entries, fun field hfield => (hall field (Fields.mem_of_mem_ofList hfield)).1⟩,
        fun field hfield => (hall field (Fields.mem_of_mem_ofList hfield)).2⟩
    · have hdepth := depth_of_scalar? hread
      exact ⟨Document.isOrdered_of_depth_eq_zero hdepth, by omega⟩

theorem isOrdered_and_depth_of_ofString? {text : String} {json : Json} (hread : ofString? text = some json) :
    json.IsOrdered ∧ json.depth ≤ maximalDepth := by
  simp only [ofString?, Option.bind_eq_bind, Option.bind_eq_some_iff, Option.ite_none_right_eq_some] at hread
  obtain ⟨⟨value, rest⟩, hvalue, _, hresult⟩ := hread
  cases hresult
  exact isOrdered_and_depth_of_read hvalue

theorem isOrdered_of_ofString? {text : String} {json : Json} (hread : ofString? text = some json) : json.IsOrdered :=
  (isOrdered_and_depth_of_ofString? hread).1

theorem depth_of_ofString? {text : String} {json : Json} (hread : ofString? text = some json) :
    json.depth ≤ maximalDepth :=
  (isOrdered_and_depth_of_ofString? hread).2

end Pluck.Json
