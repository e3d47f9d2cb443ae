import Pluck.Proofs.Document.Trees

/-!
# Documents in the place of numbers

`replaceNumbers` puts a document in the place of each number and keeps the rest as it is: the items and fields, their
order and the names. Changing numbers, some of which become null, comes to this (`mapNumber_eq_replaceNumbers`), and so
does changing them twice (`replaceNumbers_replaceNumbers`). A document stays the same exactly if each number in it does,
also where it is compared by `equal` (`replaceNumbers_eq_self_iff`, `equal_replaceNumbers_iff`).
-/

namespace Pluck.Document

variable {ν μ κ : Type}

/-- The document with a document in the place of each of its numbers. -/
def replaceNumbers (f : ν → Document μ) : Document ν → Document μ
  | null => null
  | boolean value => boolean value
  | number value => f value
  | string text => string text
  | array items => array (items.map (replaceNumbers f))
  | object fields => object (fields.map fun field => (field.1, replaceNumbers f field.2))
termination_by document => document.depth
decreasing_by
  · exact depth_lt_of_mem_items ‹_›
  · exact depth_lt_of_mem ‹_›

theorem mapNumber_eq_replaceNumbers (f : ν → Option μ) (document : Document ν) :
    document.mapNumber f = document.replaceNumbers fun value => (f value).elim null number := by
  induction document using induction with
  | null | boolean | number | string => rw [mapNumber, replaceNumbers]
  | array items ih => rw [mapNumber, replaceNumbers, mapItems_eq_map, List.map_congr_left ih]
  | object fields ih =>
    rw [mapNumber, replaceNumbers, mapFields_eq_map]
    refine congrArg object (List.map_congr_left fun field hfield => ?_)
    rw [ih field hfield]

theorem replaceNumbers_replaceNumbers (f : ν → Document μ) (g : μ → Document κ) (document : Document ν) :
    (document.replaceNumbers f).replaceNumbers g = document.replaceNumbers fun value => (f value).replaceNumbers g := by
  induction document using induction with
  | null | boolean | string => simp only [replaceNumbers]
  | number value => rw [replaceNumbers, replaceNumbers]
  | array items ih =>
    rw [replaceNumbers, replaceNumbers, replaceNumbers, List.map_map]
    exact congrArg array (List.map_congr_left ih)
  | object fields ih =>
    rw [replaceNumbers, replaceNumbers, replaceNumbers, List.map_map]
    refine congrArg object (List.map_congr_left fun field hfield => ?_)
    rw [Function.comp_apply, ih field hfield]

/-! ### Documents that stay the same -/

section Same

variable {P : ν → Prop} {f : ν → Document ν} {items : List (Document ν)} {fields : Fields (Document ν)}

theorem forall_contains_number_iff {value : ν} :
    (∀ inner, (number value).Contains (number inner) → P inner) ↔ P value := by
  constructor
  · exact fun hall => hall value (.self _)
  · rintro hvalue inner (_ | _)
    exact hvalue

theorem forall_contains_array_iff :
    (∀ value, (array items).Contains (number value) → P value) ↔
      ∀ item ∈ items, ∀ value, item.Contains (number value) → P value := by
  constructor
  · exact fun hall item hitem value hvalue => hall value (.item hitem hvalue)
  · intro hall value hvalue
    cases hvalue with
    | item hitem hpart => exact hall _ hitem value hpart

theorem forall_contains_object_iff :
    (∀ value, (object fields).Contains (number value) → P value) ↔
      ∀ field ∈ fields, ∀ value, field.2.Contains (number value) → P value := by
  constructor
  · exact fun hall field hfield value hvalue => hall value (.field hfield hvalue)
  · intro hall value hvalue
    cases hvalue with
    | field hfield hpart => exact hall _ hfield value hpart

theorem replaceNumbers_eq_self_iff {document : Document ν} :
    document.replaceNumbers f = document ↔ ∀ value, document.Contains (number value) → f value = number value := by
  induction document using induction with
  | null | boolean | string =>
    rw [replaceNumbers]
    exact ⟨fun _ _ hvalue => (nomatch hvalue), fun _ => rfl⟩
  | number value => rw [replaceNumbers, forall_contains_number_iff]
  | array items ih =>
    have hitems := List.map_inj_left (l := items) (f := replaceNumbers f) (g := id)
    rw [List.map_id] at hitems
    rw [replaceNumbers, array.injEq, hitems, forall_contains_array_iff]
    exact forall₂_congr ih
  | object fields ih =>
    have hfields := List.map_inj_left (l := fields) (f := fun field => (field.1, replaceNumbers f field.2)) (g := id)
    rw [List.map_id] at hfields
    rw [replaceNumbers, object.injEq, hfields, forall_contains_object_iff]
    refine forall₂_congr fun field hfield => ?_
    rw [← ih field hfield, id_eq, Prod.ext_iff, and_iff_right rfl]

theorem equalItems_map_iff {same : ν → ν → Bool} {g : Document ν → Document ν} :
    equalItems same (items.map g) items ↔ ∀ item ∈ items, equal same (g item) item := by
  induction items with
  | nil => simp [equalItems]
  | cons item rest ih => rw [List.map_cons, equalItems, Bool.and_eq_true, ih, List.forall_mem_cons]

theorem equalFields_map_iff {same : ν → ν → Bool} {g : Document ν → Document ν} :
    equalFields same (fields.map fun field => (field.1, g field.2)) fields ↔
      ∀ field ∈ fields, equal same (g field.2) field.2 := by
  induction fields with
  | nil => simp [equalFields]
  | cons field rest ih =>
    rw [List.map_cons, equalFields, beq_self_eq_true, Bool.true_and, Bool.and_eq_true, ih, List.forall_mem_cons]

theorem equal_replaceNumbers_iff {same : ν → ν → Bool} {document : Document ν} :
    equal same (document.replaceNumbers f) document ↔
      ∀ value, document.Contains (number value) → equal same (f value) (number value) := by
  induction document using induction with
  | null | boolean | string =>
    rw [replaceNumbers, equal]
    exact ⟨fun _ _ hvalue => (nomatch hvalue), fun _ => by simp⟩
  | number value => rw [replaceNumbers, forall_contains_number_iff]
  | array items ih =>
    rw [replaceNumbers, equal, equalItems_map_iff, forall_contains_array_iff]
    exact forall₂_congr ih
  | object fields ih =>
    rw [replaceNumbers, equal, equalFields_map_iff, forall_contains_object_iff]
    exact forall₂_congr ih

end Same

end Pluck.Document
