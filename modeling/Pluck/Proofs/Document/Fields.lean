import Pluck.Document.Fields

/-!
# What is found in an object

Fields in increasing order of their names are settled by what `List.lookup` finds under each name: two such lists that
agree in this are the same (`Sorted.eq_of_lookup`). `insert` keeps the order and changes what is found under one name,
so that a list of entries gives an object in which the last entry of each name is found (`lookup_ofList`), and entries
with different names can be exchanged (`ofList_congr`). `put` can also remove what is found there (`lookup_put`). The
union of two objects has the fields of both, and of two fields with the same name that of the second object
(`lookup_union`).
-/

namespace Pluck.Fields

variable {α : Type} {name other : String} {value : α} {fields first second : Fields α}

/-- The fields of two objects. Those of the second one replace those of the first. -/
def union (first second : Fields α) : Fields α :=
  ofList (first ++ second)

/-! ### Looking up -/

theorem lookup_cons_eq (name other : String) (value : α) (fields : Fields α) :
    List.lookup name ((other, value) :: fields) = if name = other then some value else fields.lookup name := by
  rw [List.lookup_cons]
  by_cases hsame : name = other
  · rw [if_pos hsame, beq_iff_eq.2 hsame]
  · rw [if_neg hsame, beq_false_of_ne hsame]

theorem lookup_eq_none_of_not_mem (hname : name ∉ fields.map Prod.fst) : fields.lookup name = none := by
  rw [List.lookup_eq_none_iff]
  intro field hfield
  rw [bne_iff_ne]
  exact fun heq => hname (heq ▸ List.mem_map_of_mem hfield)

theorem lookup_eq_none_of_lt (hlt : ∀ field ∈ fields, name < field.1) : fields.lookup name = none := by
  apply lookup_eq_none_of_not_mem
  intro hmem
  obtain ⟨field, hfield, rfl⟩ := List.mem_map.1 hmem
  exact String.lt_irrefl field.1 (hlt field hfield)

theorem mem_of_lookup (hlookup : fields.lookup name = some value) : (name, value) ∈ fields := by
  obtain ⟨before, after, rfl, _⟩ := List.lookup_eq_some_iff.1 hlookup
  exact List.mem_append_right before List.mem_cons_self

theorem lookup_insert (name other : String) (value : α) (fields : Fields α) :
    (insert name value fields).lookup other = if other = name then some value else fields.lookup other := by
  induction fields with
  | nil => exact lookup_cons_eq other name value []
  | cons field rest ih =>
    rw [insert]
    split
    · exact lookup_cons_eq other name value _
    · split
      · rename_i hsame
        rw [lookup_cons_eq, lookup_cons_eq, hsame]
        split <;> rfl
      · rename_i hne
        rw [lookup_cons_eq, lookup_cons_eq, ih]
        by_cases hsame : other = name
        · rw [hsame, if_neg hne, if_pos rfl, if_pos rfl]
        · rw [if_neg hsame, if_neg hsame]

theorem lookup_filter (name : String) (entries : List (String × α)) :
    (entries.filter (·.1 = name)).lookup name = entries.lookup name := by
  induction entries with
  | nil => rfl
  | cons entry entries ih =>
    obtain ⟨other, value⟩ := entry
    rw [lookup_cons_eq]
    by_cases hsame : other = name
    · rw [List.filter_cons_of_pos (by simpa using hsame), lookup_cons_eq, if_pos hsame.symm, if_pos hsame.symm]
    · rw [List.filter_cons_of_neg (by simpa using hsame), if_neg (Ne.symm hsame)]
      exact ih

/-! ### Changing one field -/

/-- The fields with the value under the name, or with no field of this name. -/
def put (name : String) : Option α → Fields α → Fields α
  | some value, fields => insert name value fields
  | none, fields => fields.filter fun field => field.1 != name

theorem lookup_put (name other : String) (value : Option α) (fields : Fields α) :
    (put name value fields).lookup other = if other = name then value else fields.lookup other := by
  cases value with
  | some value => exact lookup_insert name other value fields
  | none =>
    rw [put]
    induction fields with
    | nil => simp
    | cons field rest ih =>
      obtain ⟨head, old⟩ := field
      by_cases hhead : head = name
      · rw [List.filter_cons_of_neg (by simpa using hhead), ih, lookup_cons_eq, hhead]
        by_cases hother : other = name <;> simp [hother]
      · rw [List.filter_cons_of_pos (by simpa using hhead), lookup_cons_eq, lookup_cons_eq, ih]
        by_cases hother : other = head
        · rw [if_pos hother, if_pos hother, if_neg (hother ▸ hhead)]
        · rw [if_neg hother, if_neg hother]

/-! ### The order of the fields -/

theorem eq_or_mem_of_mem_insert {field : String × α} (hfield : field ∈ insert name value fields) :
    field = (name, value) ∨ field ∈ fields := by
  induction fields with
  | nil => exact .inl (List.mem_singleton.1 hfield)
  | cons head rest ih =>
    rw [insert] at hfield
    split at hfield
    · exact List.mem_cons.1 hfield
    · split at hfield
      · exact (List.mem_cons.1 hfield).imp_right (List.mem_cons_of_mem _)
      · rcases List.mem_cons.1 hfield with rfl | hlater
        · exact .inr List.mem_cons_self
        · exact (ih hlater).imp_right (List.mem_cons_of_mem _)

theorem sorted_insert (hfields : Sorted fields) (name : String) (value : α) : Sorted (insert name value fields) := by
  induction fields with
  | nil => exact List.pairwise_singleton _ _
  | cons head rest ih =>
    obtain ⟨hhead, hrest⟩ := List.pairwise_cons.1 hfields
    rw [insert]
    split
    · rename_i hbefore
      refine List.pairwise_cons.2 ⟨List.forall_mem_cons.2 ⟨hbefore, ?_⟩, hfields⟩
      exact fun field hfield => String.lt_trans hbefore (hhead field hfield)
    · rename_i hnot
      split
      · rename_i hsame
        exact List.pairwise_cons.2 ⟨hsame ▸ hhead, hrest⟩
      · rename_i hne
        refine List.pairwise_cons.2 ⟨fun field hfield => ?_, ih hrest⟩
        rcases eq_or_mem_of_mem_insert hfield with rfl | hmem
        · -- The new name comes neither before the name at the head nor is it the same, so it comes after it.
          exact Std.lt_of_le_of_ne (String.not_lt.1 hnot) (Ne.symm hne)
        · exact hhead field hmem

theorem Sorted.not_lt_of_isSome_lookup (hfields : Sorted ((other, value) :: fields))
    (hfound : (List.lookup name ((other, value) :: fields)).isSome) : ¬name < other := by
  intro hlt
  rw [lookup_eq_none_of_lt] at hfound
  · cases hfound
  · refine List.forall_mem_cons.2 ⟨hlt, fun field hfield => ?_⟩
    exact String.lt_trans hlt (List.rel_of_pairwise_cons hfields hfield)

theorem Sorted.eq_of_lookup (hfirst : Sorted first) (hsecond : Sorted second)
    (hlookup : ∀ name, first.lookup name = second.lookup name) : first = second := by
  induction first generalizing second with
  | nil =>
    cases second with
    | nil => rfl
    | cons field rest =>
      obtain ⟨name, value⟩ := field
      simpa using hlookup name
  | cons field rest ih =>
    obtain ⟨name, value⟩ := field
    cases second with
    | nil => simpa using hlookup name
    | cons field later =>
      obtain ⟨other, old⟩ := field
      have hname : ¬name < other := hsecond.not_lt_of_isSome_lookup (by simp [← hlookup])
      have hother : ¬other < name := hfirst.not_lt_of_isSome_lookup (by simp [hlookup])
      obtain rfl : name = other := String.le_antisymm (String.not_lt.1 hother) (String.not_lt.1 hname)
      have hvalue := hlookup name
      rw [lookup_cons_eq, lookup_cons_eq, if_pos rfl, if_pos rfl] at hvalue
      cases hvalue
      obtain ⟨hrest, hfirst⟩ := List.pairwise_cons.1 hfirst
      obtain ⟨hlater, hsecond⟩ := List.pairwise_cons.1 hsecond
      rw [ih hfirst hsecond]
      intro other
      by_cases hsame : other = name
      · rw [hsame, lookup_eq_none_of_lt hrest, lookup_eq_none_of_lt hlater]
      · have hboth := hlookup other
        rwa [lookup_cons_eq, lookup_cons_eq, if_neg hsame, if_neg hsame] at hboth

/-! ### The fields of a list of entries -/

theorem sorted_foldl_insert (entries : List (String × α)) (hfields : Sorted fields) :
    Sorted (entries.foldl (fun fields (name, value) => insert name value fields) fields) := by
  induction entries generalizing fields with
  | nil => exact hfields
  | cons entry entries ih => exact ih (sorted_insert hfields entry.1 entry.2)

theorem sorted_ofList (entries : List (String × α)) : Sorted (ofList entries) :=
  sorted_foldl_insert entries List.Pairwise.nil

theorem mem_of_mem_foldl_insert {field : String × α} {entries : List (String × α)}
    (hfield : field ∈ entries.foldl (fun fields (name, value) => insert name value fields) fields) :
    field ∈ entries ∨ field ∈ fields := by
  induction entries generalizing fields with
  | nil => exact .inr hfield
  | cons entry entries ih =>
    rcases ih hfield with hentry | hinsert
    · exact .inl (List.mem_cons_of_mem _ hentry)
    · refine (eq_or_mem_of_mem_insert hinsert).imp_left ?_
      rintro rfl
      exact List.mem_cons_self

theorem mem_of_mem_ofList {field : String × α} {entries : List (String × α)} (hfield : field ∈ ofList entries) :
    field ∈ entries :=
  (mem_of_mem_foldl_insert hfield).resolve_right List.not_mem_nil

theorem lookup_foldl_insert (entries : List (String × α)) (fields : Fields α) (name : String) :
    (entries.foldl (fun fields (name, value) => insert name value fields) fields).lookup name =
      (entries.reverse.lookup name).or (fields.lookup name) := by
  induction entries generalizing fields with
  | nil => rfl
  | cons entry entries ih =>
    obtain ⟨other, value⟩ := entry
    rw [List.foldl_cons, ih, List.reverse_cons, List.lookup_append, Option.or_assoc, lookup_insert]
    rw [lookup_cons_eq, List.lookup_nil]
    split <;> rfl

theorem lookup_ofList (entries : List (String × α)) (name : String) :
    (ofList entries).lookup name = entries.reverse.lookup name := by
  rw [ofList, lookup_foldl_insert, List.lookup_nil, Option.or_none]

/-- Of the entries with a name, the last one is found. -/
theorem lookup_ofList_eq_some_iff {entries : List (String × α)} :
    (ofList entries).lookup name = some value ↔
      ∃ before after, entries = before ++ (name, value) :: after ∧ ∀ entry ∈ after, entry.1 ≠ name := by
  rw [lookup_ofList, List.lookup_eq_some_iff]
  constructor
  · rintro ⟨later, earlier, hreverse, hlater⟩
    refine ⟨earlier.reverse, later.reverse, ?_, fun entry hentry heq => ?_⟩
    · simpa using congrArg List.reverse hreverse
    · simpa [heq] using hlater entry (List.mem_reverse.1 hentry)
  · rintro ⟨before, after, rfl, hafter⟩
    refine ⟨after.reverse, before.reverse, by simp, fun entry hentry => ?_⟩
    rw [bne_iff_ne]
    exact (hafter entry (List.mem_reverse.1 hentry)).symm

/-- An object depends on the order of its entries only among those with the same name. -/
theorem ofList_congr {first second : List (String × α)}
    (hsame : ∀ name, first.filter (·.1 = name) = second.filter (·.1 = name)) : ofList first = ofList second := by
  apply Sorted.eq_of_lookup (sorted_ofList first) (sorted_ofList second)
  intro name
  rw [lookup_ofList, lookup_ofList, ← lookup_filter, ← lookup_filter name second.reverse, List.filter_reverse,
    List.filter_reverse, hsame name]

theorem isSome_lookup_iff : (fields.lookup name).isSome ↔ name ∈ fields.map Prod.fst := by
  rw [List.lookup_isSome_iff, List.mem_map]
  refine exists_congr fun field => and_congr_right fun _ => ?_
  rw [beq_iff_eq, eq_comm]

theorem mem_names_ofList (entries : List (String × α)) (name : String) :
    name ∈ (ofList entries).map Prod.fst ↔ name ∈ entries.map Prod.fst := by
  rw [← isSome_lookup_iff, lookup_ofList, isSome_lookup_iff, List.map_reverse, List.mem_reverse]

/-! ### The union of two objects -/

theorem Sorted.nodup (hfields : Sorted fields) : (fields.map Prod.fst).Nodup := by
  rw [List.Nodup, List.pairwise_map]
  refine hfields.imp ?_
  intro field later hlt heq
  exact String.lt_irrefl later.1 (heq ▸ hlt)

/-- Where no name occurs twice, it makes no difference from which end the fields are searched. -/
theorem lookup_reverse (hnodup : (fields.map Prod.fst).Nodup) (name : String) :
    fields.reverse.lookup name = fields.lookup name := by
  induction fields with
  | nil => rfl
  | cons field rest ih =>
    obtain ⟨other, value⟩ := field
    obtain ⟨hother, hrest⟩ := List.nodup_cons.1 hnodup
    rw [List.reverse_cons, List.lookup_append, ih hrest, lookup_cons_eq, lookup_cons_eq, List.lookup_nil]
    by_cases hsame : name = other
    · rw [hsame, lookup_eq_none_of_not_mem hother, if_pos rfl, Option.none_or]
    · rw [if_neg hsame, if_neg hsame, Option.or_none]

theorem ofList_eq_self (hfields : Sorted fields) : ofList fields = fields := by
  refine Sorted.eq_of_lookup (sorted_ofList fields) hfields fun name => ?_
  rw [lookup_ofList, lookup_reverse hfields.nodup]

theorem lookup_union (hfirst : Sorted first) (hsecond : Sorted second) (name : String) :
    (union first second).lookup name = (second.lookup name).or (first.lookup name) := by
  rw [union, lookup_ofList, List.reverse_append, List.lookup_append, lookup_reverse hfirst.nodup,
    lookup_reverse hsecond.nodup]

theorem ofList_append (left right : List (String × α)) :
    ofList (left ++ right) = union (ofList left) (ofList right) := by
  refine Sorted.eq_of_lookup (sorted_ofList _) (sorted_ofList _) fun name => ?_
  rw [lookup_union (sorted_ofList left) (sorted_ofList right), lookup_ofList, lookup_ofList, lookup_ofList,
    List.reverse_append, List.lookup_append]

end Pluck.Fields
