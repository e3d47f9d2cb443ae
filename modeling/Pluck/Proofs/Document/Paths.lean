import Pluck.Document.Value

/-!
# Where a path leads

A path leads from one value to another if it can be gone from object to object, with a field for each of its names.
`Leads` says this without regard to what is done where a path cannot be gone. A path leads to at most one value, and
`follow` finds it (`follow_eq_found_iff`). Any other path has a first name that leads nowhere
(`leads_or_exists_end`): the value before it may be null or an object without that field, which is no more than a
missing value (`Leads.follow_eq_missing`), or it may be of a kind that has no fields, and there the path breaks off
(`follow_eq_mismatch_iff`).
-/

namespace Pluck.Document

/-- The path leads from the first value to the second, name by name and through objects only. -/
inductive Leads : Value → List String → Value → Prop
  | here (value : Value) : Leads value [] value
  | field {fields : Fields Value} {name : String} {rest : List String} {field value : Value}
    (hfield : fields.lookup name = some field) (hrest : Leads field rest value) :
    Leads (.object fields) (name :: rest) value

/-- The path goes on with this name from a value of this kind, which is neither an object nor null. -/
def BreaksAt (root : Value) (path : List String) (name : String) (kind : Kind) : Prop :=
  ∃ passed rest value, path = passed ++ name :: rest ∧ root.Leads passed value ∧ value.kind = kind ∧
    kind ≠ .object ∧ kind ≠ .null

variable {root value : Value} {path passed rest : List String} {name : String} {kind : Kind}

/-! ### One name -/

theorem lookup_eq_found_iff {field : Value} :
    value.lookup name = .found field ↔ ∃ fields, value = .object fields ∧ List.lookup name fields = some field := by
  cases value with
  | object fields =>
    rw [lookup]
    cases hname : List.lookup name fields <;> simp [hname]
  | null | boolean | number | string | array => simp [lookup]

theorem lookup_eq_missing_iff :
    value.lookup name = .missing ↔ value = .null ∨ ∃ fields, value = .object fields ∧ List.lookup name fields = none := by
  cases value with
  | object fields =>
    rw [lookup]
    cases hname : List.lookup name fields <;> simp [hname, -List.lookup_eq_none_iff]
  | null | boolean | number | string | array => simp [lookup]

theorem lookup_eq_mismatch_iff {other : String} :
    value.lookup name = .mismatch other kind ↔ name = other ∧ value.kind = kind ∧ kind ≠ .object ∧ kind ≠ .null := by
  cases value with
  | number value => cases value <;> grind [lookup, Document.kind]
  | object fields =>
    rw [lookup]
    cases List.lookup name fields <;> grind [Document.kind]
  | null | boolean | string | array => grind [lookup, Document.kind]

/-! ### The whole path -/

theorem Leads.follow_append (hpassed : root.Leads passed value) (rest : List String) :
    root.follow (passed ++ rest) = value.follow rest := by
  induction hpassed with
  | here => rfl
  | field hfield _ ih =>
    rw [List.cons_append, follow, lookup_eq_found_iff.2 ⟨_, rfl, hfield⟩]
    exact ih

theorem follow_of_lookup_ne_found (hname : ∀ field, value.lookup name ≠ .found field) (rest : List String) :
    value.follow (name :: rest) = value.lookup name := by
  rw [follow]
  cases hlookup : value.lookup name with
  | found field => exact absurd hlookup (hname field)
  | missing => rfl
  | mismatch => rfl

/-- A path that leads nowhere can be gone up to one of its names. -/
theorem leads_or_exists_end (root : Value) (path : List String) :
    (∃ value, root.Leads path value) ∨ ∃ passed name rest value, path = passed ++ name :: rest ∧
      root.Leads passed value ∧ ∀ field, value.lookup name ≠ .found field := by
  induction path generalizing root with
  | nil => exact .inl ⟨root, .here root⟩
  | cons name rest ih =>
    by_cases hname : ∃ field, root.lookup name = .found field
    · obtain ⟨field, hfield⟩ := hname
      obtain ⟨fields, rfl, hlookup⟩ := lookup_eq_found_iff.1 hfield
      rcases ih field with ⟨value, hvalue⟩ | ⟨passed, last, later, value, rfl, hpassed, hlast⟩
      · exact .inl ⟨value, .field hlookup hvalue⟩
      · exact .inr ⟨name :: passed, last, later, value, rfl, .field hlookup hpassed, hlast⟩
    · exact .inr ⟨[], name, rest, root, rfl, .here root, not_exists.1 hname⟩

theorem follow_eq_found_iff : root.follow path = .found value ↔ root.Leads path value := by
  constructor
  · intro harrival
    rcases leads_or_exists_end root path with ⟨other, hother⟩ | ⟨passed, name, rest, other, rfl, hpassed, hname⟩
    · have hfound : root.follow path = .found other := by simpa [follow] using hother.follow_append []
      obtain rfl := Arrival.found.inj (harrival.symm.trans hfound)
      exact hother
    · rw [hpassed.follow_append, follow_of_lookup_ne_found hname] at harrival
      exact absurd harrival (hname value)
  · intro hvalue
    simpa [follow] using hvalue.follow_append []

theorem follow_eq_mismatch_iff : root.follow path = .mismatch name kind ↔ root.BreaksAt path name kind := by
  constructor
  · intro harrival
    rcases leads_or_exists_end root path with ⟨other, hother⟩ | ⟨passed, last, rest, value, rfl, hpassed, hlast⟩
    · rw [follow_eq_found_iff.2 hother] at harrival
      cases harrival
    · rw [hpassed.follow_append, follow_of_lookup_ne_found hlast, lookup_eq_mismatch_iff] at harrival
      obtain ⟨rfl, hkind⟩ := harrival
      exact ⟨passed, rest, value, rfl, hpassed, hkind⟩
  · rintro ⟨passed, rest, value, rfl, hpassed, hkind⟩
    have hlookup : value.lookup name = .mismatch name kind := lookup_eq_mismatch_iff.2 ⟨rfl, hkind⟩
    rw [hpassed.follow_append, follow_of_lookup_ne_found (by simp [hlookup]), hlookup]

/-- Where a path goes on from null, or with a field that an object does not have, a value is missing. -/
theorem Leads.follow_eq_missing (hpassed : root.Leads passed value)
    (hname : value = .null ∨ ∃ fields, value = .object fields ∧ List.lookup name fields = none) (rest : List String) :
    root.follow (passed ++ name :: rest) = .missing := by
  have hlookup : value.lookup name = .missing := lookup_eq_missing_iff.2 hname
  rw [hpassed.follow_append, follow_of_lookup_ne_found (by simp [hlookup]), hlookup]

end Pluck.Document
