import Pluck.Document.Basic
import Pluck.Proofs.Document.Fields

/-!
# Documents as trees

What can be said of all parts of a document at once. `induction` is the induction on documents that takes a container
after everything in it. `Contains` leads from a document to its parts at any depth, `depth` counts the containers around
the innermost part, and a document is ordered (`IsOrdered`) if the fields of all objects in it are. Another choice of
numbers (`mapNumber`) keeps all of these.
-/

namespace Pluck.Document

variable {ν μ : Type} {document part inner : Document ν} {items : List (Document ν)} {fields : Fields (Document ν)}

@[elab_as_elim]
theorem induction {motive : Document ν → Prop} (null : motive null) (boolean : ∀ value, motive (boolean value))
    (number : ∀ value, motive (number value)) (string : ∀ text, motive (string text))
    (array : ∀ items, (∀ item ∈ items, motive item) → motive (array items))
    (object : ∀ fields, (∀ field ∈ fields, motive field.2) → motive (object fields)) (document : Document ν) :
    motive document :=
  @Document.rec ν motive (fun items => ∀ item ∈ items, motive item) (fun fields => ∀ field ∈ fields, motive field.2)
    (fun field => motive field.2) null boolean number string array object nofun
    (fun _ _ hitem hrest => List.forall_mem_cons.2 ⟨hitem, hrest⟩) nofun
    (fun _ _ hfield hrest => List.forall_mem_cons.2 ⟨hfield, hrest⟩) (fun _ _ hvalue => hvalue) document

/-! ### Parts -/

/-- A document contains itself and what its items or fields contain. -/
inductive Contains : Document ν → Document ν → Prop
  | self (document : Document ν) : Contains document document
  | item {items : List (Document ν)} {item part : Document ν} (hitem : item ∈ items) (hpart : Contains item part) :
    Contains (array items) part
  | field {fields : Fields (Document ν)} {field : String × Document ν} {part : Document ν} (hfield : field ∈ fields)
    (hpart : Contains field.2 part) : Contains (object fields) part

theorem Contains.trans (hpart : document.Contains part) (hinner : part.Contains inner) : document.Contains inner := by
  induction hpart with
  | self => exact hinner
  | item hitem _ ih => exact .item hitem (ih hinner)
  | field hfield _ ih => exact .field hfield (ih hinner)

/-! ### Depth -/

mutual

/-- The number of containers around the innermost part. -/
def depth : Document ν → Nat
  | array items => depthOfItems items + 1
  | object fields => depthOfFields fields + 1
  | null | boolean _ | number _ | string _ => 0

def depthOfItems : List (Document ν) → Nat
  | [] => 0
  | item :: rest => max (depth item) (depthOfItems rest)

def depthOfFields : Fields (Document ν) → Nat
  | [] => 0
  | (_, value) :: rest => max (depth value) (depthOfFields rest)

end

theorem depth_array_le_iff {n : Nat} : (array items).depth ≤ n + 1 ↔ ∀ item ∈ items, item.depth ≤ n := by
  rw [depth, Nat.add_le_add_iff_right]
  induction items with
  | nil => simp [depthOfItems]
  | cons item rest ih => rw [depthOfItems, Nat.max_le, ih, List.forall_mem_cons]

theorem depth_object_le_iff {n : Nat} : (object fields).depth ≤ n + 1 ↔ ∀ field ∈ fields, field.2.depth ≤ n := by
  rw [depth, Nat.add_le_add_iff_right]
  induction fields with
  | nil => simp [depthOfFields]
  | cons field rest ih => rw [depthOfFields, Nat.max_le, ih, List.forall_mem_cons]

theorem depth_lt_of_mem_items {item : Document ν} (hitem : item ∈ items) : item.depth < (array items).depth :=
  Nat.lt_succ_of_le (depth_array_le_iff.1 (Nat.le_refl _) item hitem)

theorem depth_lt_of_mem {field : String × Document ν} (hfield : field ∈ fields) :
    field.2.depth < (object fields).depth :=
  Nat.lt_succ_of_le (depth_object_le_iff.1 (Nat.le_refl _) field hfield)

/-! ### Order -/

/-- The fields of every object in the document come in the order of their names. -/
def IsOrdered (document : Document ν) : Prop :=
  ∀ fields, document.Contains (object fields) → Fields.Sorted fields

theorem IsOrdered.of_contains (hdocument : document.IsOrdered) (hpart : document.Contains part) : part.IsOrdered :=
  fun fields hfields => hdocument fields (hpart.trans hfields)

theorem isOrdered_array_iff : (array items).IsOrdered ↔ ∀ item ∈ items, item.IsOrdered := by
  constructor
  · exact fun hitems item hitem => hitems.of_contains (.item hitem (.self item))
  · intro hitems fields hfields
    cases hfields with
    | item hitem hpart => exact hitems _ hitem fields hpart

theorem isOrdered_object_iff :
    (object fields).IsOrdered ↔ Fields.Sorted fields ∧ ∀ field ∈ fields, field.2.IsOrdered := by
  constructor
  · exact fun hfields => ⟨hfields fields (.self _), fun field hfield => hfields.of_contains (.field hfield (.self _))⟩
  · rintro ⟨hsorted, hfields⟩ others hothers
    cases hothers with
    | self => exact hsorted
    | field hfield hpart => exact hfields _ hfield others hpart

theorem isOrdered_of_depth_eq_zero (hdepth : document.depth = 0) : document.IsOrdered := by
  intro fields hfields
  cases hfields with
  | self | item | field => exact absurd hdepth (Nat.succ_ne_zero _)

/-! ### Other numbers -/

section MapNumber

variable {f : ν → Option μ}

theorem mapItems_eq_map : mapItems f items = items.map (mapNumber f) := by
  induction items with
  | nil => rfl
  | cons item rest ih => rw [mapItems, ih, List.map_cons]

theorem mapFields_eq_map : mapFields f fields = fields.map fun field => (field.1, field.2.mapNumber f) := by
  induction fields with
  | nil => rfl
  | cons field rest ih => rw [mapFields, ih, List.map_cons]

theorem depth_mapNumber (document : Document ν) : (document.mapNumber f).depth = document.depth := by
  induction document using induction with
  | null | boolean | string => rfl
  | number value =>
    rw [mapNumber]
    cases f value <;> rfl
  | array items ih =>
    rw [mapNumber, depth, depth, mapItems_eq_map]
    congr 1
    induction items with
    | nil => rfl
    | cons item rest hrest =>
      obtain ⟨hitem, hitems⟩ := List.forall_mem_cons.1 ih
      rw [List.map_cons, depthOfItems, depthOfItems, hitem, hrest hitems]
  | object fields ih =>
    rw [mapNumber, depth, depth, mapFields_eq_map]
    congr 1
    induction fields with
    | nil => rfl
    | cons field rest hrest =>
      obtain ⟨hfield, hfields⟩ := List.forall_mem_cons.1 ih
      rw [List.map_cons, depthOfFields, depthOfFields, hfield, hrest hfields]

theorem IsOrdered.mapNumber (hdocument : document.IsOrdered) : (document.mapNumber f).IsOrdered := by
  induction document using induction with
  | null | boolean | string => nofun
  | number value =>
    rw [Document.mapNumber]
    cases f value <;> nofun
  | array items ih =>
    rw [isOrdered_array_iff] at hdocument
    rw [Document.mapNumber, mapItems_eq_map, isOrdered_array_iff, List.forall_mem_map]
    exact fun item hitem => ih item hitem (hdocument item hitem)
  | object fields ih =>
    rw [isOrdered_object_iff] at hdocument
    rw [Document.mapNumber, mapFields_eq_map, isOrdered_object_iff, List.forall_mem_map, Fields.Sorted,
      List.pairwise_map]
    exact ⟨hdocument.1, fun field hfield => ih field hfield (hdocument.2 field hfield)⟩

theorem exists_of_contains_number_mapNumber {value : μ} (hvalue : (document.mapNumber f).Contains (number value)) :
    ∃ old, document.Contains (number old) ∧ f old = some value := by
  induction document using induction with
  | null | boolean | string => cases hvalue
  | number old =>
    rw [mapNumber] at hvalue
    cases hold : f old with
    | none =>
      rw [hold] at hvalue
      cases hvalue
    | some found =>
      rw [hold] at hvalue
      cases hvalue
      exact ⟨old, .self _, hold⟩
  | array items ih =>
    rw [mapNumber, mapItems_eq_map] at hvalue
    cases hvalue with
    | item hitem hpart =>
      obtain ⟨item, hmem, rfl⟩ := List.mem_map.1 hitem
      obtain ⟨old, hold, hf⟩ := ih item hmem hpart
      exact ⟨old, .item hmem hold, hf⟩
  | object fields ih =>
    rw [mapNumber, mapFields_eq_map] at hvalue
    cases hvalue with
    | field hfield hpart =>
      obtain ⟨field, hmem, rfl⟩ := List.mem_map.1 hfield
      obtain ⟨old, hold, hf⟩ := ih field hmem hpart
      exact ⟨old, .field hmem hold, hf⟩

end MapNumber

end Pluck.Document
