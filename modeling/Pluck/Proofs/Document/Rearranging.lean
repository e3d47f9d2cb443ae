import Pluck.Proofs.Document.Paths
import Pluck.Proofs.Document.Trees

/-!
# Entries in another order

A document can list the entries of its objects in any order and name one more than once. `arranged` is the document that
is built from it: the entries of each object are inserted one after the other. Two entries with different names can be
exchanged in any object, at any depth and any number of times (`Rearranged`), and the document that is built stays the
same (`Rearranged.arranged_eq`), also if it is built after its numbers have been changed. A path arrives at rearranged
values (`Rearranged.follow`), so that no order that the entries are listed in can be told by following paths.
-/

namespace Pluck

/-! ### Fields whose values are changed -/

namespace Fields

variable {α β : Type}

theorem ofList_exchange {name other : String} (hnames : name ≠ other) (value old : α)
    (before after : List (String × α)) :
    ofList (before ++ (name, value) :: (other, old) :: after) =
      ofList (before ++ (other, old) :: (name, value) :: after) := by
  apply ofList_congr
  intro key
  rw [List.filter_append, List.filter_append]
  congr 1
  by_cases hname : name = key
  · have hother : other ≠ key := fun heq => hnames (hname.trans heq.symm)
    simp [hname, hother]
  · simp [List.filter_cons, hname]

theorem lookup_map (f : α → β) (name : String) (entries : List (String × α)) :
    (entries.map fun entry => (entry.1, f entry.2)).lookup name = (entries.lookup name).map f := by
  induction entries with
  | nil => rfl
  | cons entry rest ih =>
    rw [List.map_cons, lookup_cons_eq, lookup_cons_eq, ih]
    split <;> rfl

theorem ofList_map (f : α → β) (entries : List (String × α)) :
    ofList (entries.map fun entry => (entry.1, f entry.2)) =
      (ofList entries).map fun field => (field.1, f field.2) := by
  refine Sorted.eq_of_lookup (sorted_ofList _) (List.pairwise_map.2 (sorted_ofList entries)) fun name => ?_
  rw [lookup_ofList, ← List.map_reverse, lookup_map, lookup_map, lookup_ofList]

end Fields

namespace Document

variable {ν μ : Type} {first second third : Document ν}

/-- The document that is built from this one, where the entries of each object are inserted one after the other. -/
def arranged : Document ν → Document ν
  | null => null
  | boolean value => boolean value
  | number value => number value
  | string text => string text
  | array items => array (items.map arranged)
  | object entries => ofEntries (entries.map fun entry => (entry.1, arranged entry.2))
termination_by document => document.depth
decreasing_by
  · exact depth_lt_of_mem_items ‹_›
  · exact depth_lt_of_mem ‹_›

/-- The entries of objects in another order: two with different names can be exchanged, wherever they are. -/
inductive Rearranged : Document ν → Document ν → Prop
  | refl (document : Document ν) : Rearranged document document
  | trans {first second third : Document ν} (hfirst : Rearranged first second) (hsecond : Rearranged second third) :
    Rearranged first third
  | item {item other : Document ν} (hitem : Rearranged item other) (before after : List (Document ν)) :
    Rearranged (array (before ++ item :: after)) (array (before ++ other :: after))
  | value {value other : Document ν} (hvalue : Rearranged value other) (name : String)
    (before after : List (String × Document ν)) :
    Rearranged (object (before ++ (name, value) :: after)) (object (before ++ (name, other) :: after))
  | exchange {name other : String} (hnames : name ≠ other) (value old : Document ν)
    (before after : List (String × Document ν)) :
    Rearranged (object (before ++ (name, value) :: (other, old) :: after))
      (object (before ++ (other, old) :: (name, value) :: after))

/-- Where no name occurs twice, the entries can come in any order at all. -/
theorem rearranged_of_perm {entries others : List (String × Document ν)} (hperm : entries.Perm others)
    (hnodup : (entries.map Prod.fst).Nodup) : (object entries).Rearranged (object others) := by
  -- The entries that stay in place are passed to the left, so that the exchange in the induction has them before it.
  have hprefix : ∀ before, (object (before ++ entries)).Rearranged (object (before ++ others)) := by
    induction hperm with
    | nil => exact fun before => .refl _
    | cons entry _ ih =>
      intro before
      have hrest := ih (List.nodup_cons.1 hnodup).2 (before ++ [entry])
      rwa [List.append_assoc, List.append_assoc] at hrest
    | swap entry other rest =>
      intro before
      have hnames : other.1 ≠ entry.1 := fun heq => (List.nodup_cons.1 hnodup).1 (heq ▸ List.mem_cons_self)
      exact .exchange hnames _ _ before rest
    | trans hfirst _ ihFirst ihSecond =>
      intro before
      exact (ihFirst hnodup before).trans (ihSecond ((hfirst.map Prod.fst).nodup_iff.1 hnodup) before)
  exact hprefix []

/-! ### Building a document -/

theorem isOrdered_arranged (document : Document ν) : document.arranged.IsOrdered := by
  induction document using induction with
  | null | boolean | number | string =>
    rw [arranged]
    exact isOrdered_of_depth_eq_zero rfl
  | array items ih =>
    rw [arranged, isOrdered_array_iff, List.forall_mem_map]
    exact ih
  | object entries ih =>
    rw [arranged, ofEntries, isOrdered_object_iff]
    refine ⟨Fields.sorted_ofList _, fun field hfield => ?_⟩
    obtain ⟨entry, hentry, rfl⟩ := List.mem_map.1 (Fields.mem_of_mem_ofList hfield)
    exact ih entry hentry

theorem IsOrdered.arranged_eq {document : Document ν} (hdocument : document.IsOrdered) :
    document.arranged = document := by
  induction document using induction with
  | null | boolean | number | string => rw [arranged]
  | array items ih =>
    rw [isOrdered_array_iff] at hdocument
    rw [arranged, List.map_congr_left fun item hitem => ih item hitem (hdocument item hitem), List.map_id']
  | object fields ih =>
    obtain ⟨hsorted, hfields⟩ := isOrdered_object_iff.1 hdocument
    have hmap : fields.map (fun field => (field.1, field.2.arranged)) = fields := by
      refine (List.map_congr_left fun field hfield => ?_).trans (List.map_id fields)
      rw [ih field hfield (hfields field hfield), id_eq]
    rw [arranged, hmap, ofEntries, Fields.ofList_eq_self hsorted]

/-- It makes no difference whether the values are built before they are inserted or after that. -/
theorem arranged_ofEntries (entries : List (String × Document ν)) :
    (ofEntries entries).arranged = ofEntries (entries.map fun entry => (entry.1, entry.2.arranged)) := by
  rw [ofEntries, arranged, ofEntries, ← Fields.ofList_map, ofEntries, Fields.ofList_eq_self (Fields.sorted_ofList _)]

namespace Rearranged

theorem arranged_eq (hsame : first.Rearranged second) : first.arranged = second.arranged := by
  induction hsame with
  | refl => rfl
  | trans _ _ ihFirst ihSecond => exact ihFirst.trans ihSecond
  | item _ before after ih =>
    rw [arranged, arranged, List.map_append, List.map_append, List.map_cons, List.map_cons, ih]
  | value _ name before after ih =>
    rw [arranged, arranged, List.map_append, List.map_append, List.map_cons, List.map_cons, ih]
  | exchange hnames value old before after =>
    rw [arranged, arranged, List.map_append, List.map_append]
    exact congrArg object (Fields.ofList_exchange hnames _ _ _ _)

theorem mapNumber (f : ν → Option μ) (hsame : first.Rearranged second) :
    (first.mapNumber f).Rearranged (second.mapNumber f) := by
  induction hsame with
  | refl => exact .refl _
  | trans _ _ ihFirst ihSecond => exact ihFirst.trans ihSecond
  | item _ before after ih =>
    rw [Document.mapNumber, Document.mapNumber, mapItems_eq_map, mapItems_eq_map, List.map_append, List.map_append]
    exact .item ih _ _
  | value _ name before after ih =>
    rw [Document.mapNumber, Document.mapNumber, mapFields_eq_map, mapFields_eq_map, List.map_append, List.map_append]
    exact .value ih name _ _
  | exchange hnames value old before after =>
    rw [Document.mapNumber, Document.mapNumber, mapFields_eq_map, mapFields_eq_map, List.map_append, List.map_append]
    exact .exchange hnames _ _ _ _

end Rearranged

end Document

/-! ### Where paths arrive -/

/-- The arrivals are the same, but for the order of entries in the value that is found. -/
inductive Arrival.Rearranged : Arrival → Arrival → Prop
  | found {value other : Value} (hvalue : value.Rearranged other) : Rearranged (found value) (found other)
  | same (arrival : Arrival) : Rearranged arrival arrival

theorem Arrival.Rearranged.trans {first second third : Arrival} (hfirst : first.Rearranged second)
    (hsecond : second.Rearranged third) : first.Rearranged third := by
  cases hfirst with
  | same => exact hsecond
  | found hvalue =>
    cases hsecond with
    | same => exact .found hvalue
    | found hother => exact .found (hvalue.trans hother)

namespace Document.Rearranged

variable {root listed : Value}

theorem lookup (hsame : root.Rearranged listed) (name : String) :
    (root.lookup name).Rearranged (listed.lookup name) := by
  induction hsame with
  | refl => exact .same _
  | trans _ _ ihFirst ihSecond => exact ihFirst.trans ihSecond
  | item => exact .same (.mismatch name .array)
  | value hvalue other before after =>
    rw [Document.lookup, Document.lookup, List.lookup_append, List.lookup_append, Fields.lookup_cons_eq,
      Fields.lookup_cons_eq]
    cases before.lookup name with
    | some earlier => exact .same (.found earlier)
    | none =>
      by_cases hname : name = other
      · rw [if_pos hname, if_pos hname]
        exact .found hvalue
      · rw [if_neg hname, if_neg hname]
        exact .same _
  | @exchange first second hnames value old before after =>
    have hlookup : List.lookup name ((first, value) :: (second, old) :: after) =
        List.lookup name ((second, old) :: (first, value) :: after) := by
      simp only [Fields.lookup_cons_eq]
      by_cases hfirst : name = first
      · rw [if_pos hfirst, if_pos hfirst, if_neg (hfirst ▸ hnames)]
      · rw [if_neg hfirst, if_neg hfirst]
    rw [Document.lookup, Document.lookup, List.lookup_append, List.lookup_append, hlookup]
    exact .same _

theorem follow (hsame : root.Rearranged listed) (path : List String) :
    (root.follow path).Rearranged (listed.follow path) := by
  induction path generalizing root listed with
  | nil => exact .found hsame
  | cons name rest ih =>
    have hname := hsame.lookup name
    rw [Document.follow, Document.follow]
    generalize root.lookup name = first at hname ⊢
    generalize listed.lookup name = second at hname ⊢
    cases hname with
    | found hvalue => exact ih hvalue
    | same => exact .same _

end Document.Rearranged

end Pluck
