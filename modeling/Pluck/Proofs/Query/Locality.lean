import Pluck.Proofs.Query.Evaluation

/-!
# Where in a document a query looks

A clause depends on a document only through the place where its path arrives. Two things follow for whole queries.
First, a query on a value inside a document is the query on the document with the way to that value put in front of its
paths: `evaluate_under`. Second, a field that is neither on the way of a clause nor inside what the clause finds makes
no difference, so that it may be set, replaced or removed: `evaluate_editAt`.
-/

namespace Pluck

/-! ### Going from value to value -/

theorem Document.get?_eq_value? (value : Value) (name : String) : value.get? name = (value.lookup name).value? := by
  rw [get?]
  cases value.lookup name <;> rfl

/-- The fields of a path, got one inside the other, lead to where the path arrives. -/
theorem Document.foldlM_get?_eq_value? (root : Value) (path : List String) :
    path.foldlM Document.get? root = (root.follow path).value? := by
  induction path generalizing root with
  | nil => rfl
  | cons name rest ih =>
    rw [List.foldlM_cons, get?_eq_value?, follow]
    cases root.lookup name with
    | found field => exact ih field
    | missing => rfl
    | mismatch name kind => rfl

/-! ### Editing a field -/

namespace Document

/-- The document in which the object at the end of a path has other fields. -/
def editAt (change : Fields Value → Fields Value) : List String → Value → Value
  | [], object fields => object (change fields)
  | name :: rest, object fields =>
    match fields.lookup name with
    | some field => object (Fields.insert name (editAt change rest field) fields)
    | none => object fields
  | _, other => other

variable {root : Value} {parent path : List String} {name : String} {fields : Fields Value}
  {change : Fields Value → Fields Value}

theorem follow_editAt_self (hparent : root.follow parent = .found (object fields)) :
    (root.editAt change parent).follow parent = .found (object (change fields)) := by
  induction parent generalizing root with
  | nil =>
    obtain rfl := Arrival.found.inj hparent
    rfl
  | cons head rest ih =>
    cases root with
    | object siblings =>
      rw [follow_object_cons] at hparent
      cases hfield : siblings.lookup head with
      | none => simp [hfield, Arrival.goOn] at hparent
      | some field =>
        rw [hfield] at hparent
        rw [editAt, hfield, follow_object_cons, Fields.lookup_insert, if_pos rfl]
        exact ih hparent
    | null | boolean | number | string | array => simp [follow, lookup] at hparent

/-- A path turns off before the field that is changed, or else one of the two is the beginning of the other. -/
theorem follow_editAt_of_apart (hchange : ∀ siblings other, other ≠ name → (change siblings).lookup other =
      List.lookup other siblings)
    (hpath : ¬path <+: parent ++ [name]) (hname : ¬parent ++ [name] <+: path) :
    (root.editAt change parent).follow path = root.follow path := by
  induction parent generalizing root path with
  | nil =>
    cases root with
    | object siblings =>
      cases path with
      | nil => exact absurd List.nil_prefix hpath
      | cons head rest =>
        have hne : head ≠ name := by
          rintro rfl
          exact hname (List.prefix_append [head] rest)
        rw [editAt, follow_object_cons, follow_object_cons, hchange siblings head hne]
    | null | boolean | number | string | array => rfl
  | cons first parent ih =>
    cases root with
    | object siblings =>
      rw [editAt]
      cases hfield : siblings.lookup first with
      | none => rfl
      | some field =>
        cases path with
        | nil => exact absurd List.nil_prefix hpath
        | cons head rest =>
          rw [follow_object_cons, follow_object_cons, Fields.lookup_insert]
          by_cases hsame : head = first
          · subst hsame
            rw [List.cons_append, List.prefix_cons_inj] at hpath hname
            rw [if_pos rfl, hfield]
            exact ih hpath hname
          · rw [if_neg hsame]
    | null | boolean | number | string | array => rfl

end Document

/-! ### Queries -/

namespace Query

/-- The query with a path put in front of all its paths. -/
def under (path : List String) (query : Query) : Query :=
  ⟨query.clauses.map fun clause => ⟨path ++ clause.path, clause.key⟩⟩

/-- A path that leads from a document to a value can be put in front of the paths of a query: this finds in the document
what the query finds in the value, and an error is the same up to the path that it names. Where the path leads nowhere,
nothing is found. -/
theorem evaluate_under (options : Options) (root : Value) (path : List String) :
    (∀ value, path.foldlM Document.get? root = some value → ∀ query : Query,
      (query.evaluate options value).mapError EvaluationError.withoutPath =
        ((query.under path).evaluate options root).mapError EvaluationError.withoutPath) ∧
    (path.foldlM Document.get? root = none → ∀ query : Query, (query.under path).evaluate .lenient root = .ok []) := by
  rw [Document.foldlM_get?_eq_value?]
  constructor
  · intro value hvalue query
    apply Course.mapError_result_congr
    refine Course.report_ofClauses_map (fun _ => rfl) fun clause _ => ?_
    rw [Document.follow_append, Arrival.eq_found_of_value? hvalue]
    rfl
  · intro hnowhere query
    refine evaluate_eq_ok_iff.2 ⟨nofun, nofun, ?_⟩
    rw [under, List.filterMap_map, List.filterMap_eq_nil_iff.2]
    · rfl
    · intro clause _
      rw [Function.comp, Clause.entry?, Document.follow_append, Arrival.value?_goOn_eq_none hnowhere, Option.map_none]

/-- A path that ends at a text leads to a value, on which every path that goes on is in error. -/
theorem evaluate_under_name :
    let root : Value := .object [("user", .object [("id", .null), ("name", .string "text")])]
    let query : Query := ⟨[⟨["id"], "id"⟩, ⟨["name", "first"], "first"⟩]⟩
    ["user"].foldlM Document.get? root = some (.object [("id", .null), ("name", .string "text")]) ∧
      query.evaluate .strict (.object [("id", .null), ("name", .string "text")]) =
        .error (.mismatch "name.first" "first" .string) ∧
      (query.under ["user"]).evaluate .strict root = .error (.mismatch "user.name.first" "first" .string) ∧
      (query.evaluate .strict (.object [("id", .null), ("name", .string "text")])).mapError
          EvaluationError.withoutPath =
        ((query.under ["user"]).evaluate .strict root).mapError EvaluationError.withoutPath ∧
      ["user", "name", "first"].foldlM Document.get? root = none ∧
      (query.under ["user", "name", "first"]).evaluate .lenient root = .ok [] :=
  ⟨rfl, rfl, rfl, (evaluate_under .strict _ ["user"]).1 _ rfl _, rfl,
    (evaluate_under .strict _ ["user", "name", "first"]).2 rfl _⟩

/-- The field at the end of a path may be set, replaced or removed: this changes what is there, and nothing about a
query with whose paths this path is not comparable. -/
theorem evaluate_editAt {options : Options} {root : Value} {parent : List String} {fields : Fields Value}
    (hparent : root.follow parent = .found (.object fields)) (name : String) (value : Option Value) :
    (root.editAt (Fields.put name value) parent).follow (parent ++ [name]) = value.elim .missing .found ∧
    ∀ query : Query,
      (∀ clause ∈ query.clauses, ¬clause.path <+: parent ++ [name] ∧ ¬parent ++ [name] <+: clause.path) →
      query.evaluate options (root.editAt (Fields.put name value) parent) = query.evaluate options root := by
  constructor
  · rw [Document.follow_append, Document.follow_editAt_self hparent]
    simp only [Arrival.goOn]
    rw [Document.follow_object_cons, Fields.lookup_put, if_pos rfl]
    cases value <;> rfl
  · intro query hapart
    rw [evaluate, evaluate, course, course, Course.ofClauses_congr]
    intro clause hclause
    obtain ⟨hpath, hname⟩ := hapart clause hclause
    refine Document.follow_editAt_of_apart (fun siblings other hne => ?_) hpath hname
    rw [Fields.lookup_put, if_neg hne]

/-- An object in the place of a text is not seen, even where the clauses pass by it and the second one fails. -/
theorem evaluate_editAt_name :
    let root : Value := .object [("user", .object [("id", .null), ("name", .string "text")])]
    let query : Query := ⟨[⟨["user", "id"], "id"⟩, ⟨["user", "id", "x"], "x"⟩, ⟨["users", "y"], "y"⟩]⟩
    root.follow ["user"] = .found (.object [("id", .null), ("name", .string "text")]) ∧
      (∀ clause ∈ query.clauses, ¬clause.path <+: ["user"] ++ ["name"] ∧ ¬["user"] ++ ["name"] <+: clause.path) ∧
      root.editAt (Fields.put "name" (some (.object []))) ["user"] =
        .object [("user", .object [("id", .null), ("name", .object [])])] ∧
      query.evaluate .strict (root.editAt (Fields.put "name" (some (.object []))) ["user"]) =
        query.evaluate .strict root :=
  ⟨rfl, by decide, rfl, (evaluate_editAt rfl "name" (some (.object []))).2 _ (by decide)⟩

end Query

end Pluck
