import Pluck.Proofs.Query.Cutting
import Pluck.Proofs.Query.Evaluation
import Pluck.Selection

/-!
# Two queries joined by a comma

The texts of two queries with a comma between them are the text of a query, which has the clauses of the first query and
then those of the second (`ofString_join`). What the joined query selects is settled by what the two select alone:
`select_join` says that the first one decides before the second does, and that the answers are united, with the second
one's values where both have a key. Keys are in each other's way only where using a key again is refused, and then
whether or not their clauses find anything.
-/

namespace Pluck.Query

instance : Append Query where
  append first second := ⟨first.clauses ++ second.clauses⟩

@[simp] theorem clauses_append (first second : Query) : (first ++ second).clauses = first.clauses ++ second.clauses :=
  rfl

@[simp] theorem keys_append (first second : Query) : (first ++ second).keys = first.keys ++ second.keys :=
  List.map_append

/-! ### Evaluating one query after the other -/

section Evaluation

variable {options : Options} {root : Value} {first second : Query} {fields others : Fields Value}

theorem evaluate_append_of_error {reason : EvaluationError} (hfirst : first.evaluate options root = .error reason) :
    (first ++ second).evaluate options root = .error reason := by
  rw [evaluate, course] at hfirst ⊢
  rw [clauses_append, Course.ofClauses_append]
  rcases hcourse : Course.ofClauses options root [] first.clauses with ⟨steps, _ | other⟩
  · rw [hcourse] at hfirst
    cases hfirst
  · rw [hcourse] at hfirst
    exact hfirst

theorem evaluate_append_of_overwrite {reason : EvaluationError} (hoverwrite : options.onDuplicate = .overwrite)
    (hfirst : first.evaluate options root = .ok fields) (hsecond : second.evaluate options root = .error reason) :
    (first ++ second).evaluate options root = .error reason := by
  rw [evaluate, course] at hfirst hsecond ⊢
  rw [clauses_append, Course.ofClauses_append]
  rcases hcourse : Course.ofClauses options root [] first.clauses with ⟨steps, _ | other⟩
  · simp only [Course.ofClauses_of_overwrite hoverwrite _ []]
    rw [Course.result] at hsecond ⊢
    cases herror : (Course.ofClauses options root [] second.clauses).error with
    | none => simp [herror] at hsecond
    | some other => simpa [herror] using hsecond
  · rw [hcourse] at hfirst
    cases hfirst

/-- Both queries are evaluated, and where a key must not be used twice, the two have none in common. -/
theorem evaluate_append_eq_ok_iff {union : Fields Value} :
    (first ++ second).evaluate options root = .ok union ↔
      (options.onDuplicate = .fail → first.keys.Disjoint second.keys) ∧
      ∃ fields others, first.evaluate options root = .ok fields ∧ second.evaluate options root = .ok others ∧
        union = Fields.union fields others := by
  simp only [evaluate_eq_ok_iff, keys_append, clauses_append, List.nodup_append', List.forall_mem_append,
    List.filterMap_append, Fields.ofList_append]
  constructor
  · rintro ⟨hkeys, hpaths, rfl⟩
    exact ⟨fun hfail => (hkeys hfail).2.2, _, _, ⟨fun hfail => (hkeys hfail).1, fun hfail => (hpaths hfail).1, rfl⟩,
      ⟨fun hfail => (hkeys hfail).2.1, fun hfail => (hpaths hfail).2, rfl⟩, rfl⟩
  · rintro ⟨hdisjoint, _, _, ⟨hfirst, hfirstPaths, rfl⟩, ⟨hsecond, hsecondPaths, rfl⟩, rfl⟩
    exact ⟨fun hfail => ⟨hfirst hfail, hsecond hfail, hdisjoint hfail⟩,
      fun hfail => ⟨hfirstPaths hfail, hsecondPaths hfail⟩, rfl⟩

theorem sorted_of_evaluate (hquery : first.evaluate options root = .ok fields) : fields.Sorted := by
  obtain ⟨_, _, rfl⟩ := evaluate_eq_ok_iff.1 hquery
  exact Fields.sorted_ofList _

end Evaluation

/-! ### Reading the joined text -/

theorem splitOn_append_cons (d : Char) (left right : List Char) :
    (left ++ d :: right).splitOn d = left.splitOn d ++ right.splitOn d := by
  induction left using cut_induction d with
  | last piece hpiece =>
    rw [List.splitOn_append_cons_self_of_not_mem hpiece, List.splitOn_eq_singleton hpiece, List.singleton_append]
  | more piece rest hpiece ih =>
    rw [List.append_assoc, List.cons_append, List.splitOn_append_cons_self_of_not_mem hpiece,
      List.splitOn_append_cons_self_of_not_mem hpiece, ih, List.cons_append]

theorem cut_join (left right : List Char) : cut (left ++ ',' :: right) = cut left ++ cut right := by
  rw [cut, splitOn_append_cons, List.map_append]
  rfl

theorem isQuery_join {left right : List Char} (hleft : IsQuery left) (hright : IsQuery right) :
    IsQuery (left ++ ',' :: right) := by
  constructor
  · rw [splitOn_append_cons, List.forall_mem_append]
    exact ⟨hleft.1, hright.1⟩
  · simp only [lastKey, splitOn_append_cons, List.getLast_append_of_ne_nil _ (List.splitOn_ne_nil ',' right)]
    exact hright.2

theorem ofString_join {left right : String} {first second : Query} (hleft : ofString left = .ok first)
    (hright : ofString right = .ok second) : ofString (left ++ "," ++ right) = .ok (first ++ second) := by
  rw [ofString_eq_ok_iff] at hleft hright ⊢
  obtain ⟨hleft, rfl⟩ := hleft
  obtain ⟨hright, rfl⟩ := hright
  have htext : (left ++ "," ++ right).toList = left.toList ++ ',' :: right.toList := by
    simp [String.toList_append]
  rw [htext, cut_join]
  exact ⟨isQuery_join hleft hright, rfl⟩

/-! ### Selecting with the joined text -/

section Selection

variable {options : Options} {root : Value} {text : String} {query : Query}

theorem select_of_ofString (hread : ofString text = .ok query) :
    select options text root = ((query.evaluate options root).mapError .evaluation).map .object := by
  have hnonempty : text.isEmpty = false := by
    rw [← Bool.not_eq_true, String.isEmpty_iff]
    rintro rfl
    exact absurd ((ofString_eq_ok_iff "" query).1 hread).1 (by decide)
  simp only [select, hnonempty, hread, Bool.false_eq_true, if_false]
  cases query.evaluate options root <;> rfl

theorem select_eq_error_iff (hread : ofString text = .ok query) {reason : SelectionError} :
    select options text root = .error reason ↔
      ∃ cause, query.evaluate options root = .error cause ∧ reason = .evaluation cause := by
  rw [select_of_ofString hread]
  cases query.evaluate options root <;> simp [Except.mapError, Except.map, eq_comm]

theorem select_eq_ok_iff (hread : ofString text = .ok query) {value : Value} :
    select options text root = .ok value ↔
      ∃ fields, query.evaluate options root = .ok fields ∧ value = .object fields := by
  rw [select_of_ofString hread]
  cases query.evaluate options root <;> simp [Except.mapError, Except.map, eq_comm]

end Selection

/-- The texts of two queries with a comma in between are a query with the clauses of both. It fails where the first
query fails, and for the same reason. Otherwise it depends on the second one alone if keys may be used again, and if
they may not, both have to succeed and to have no key in common. The answer is the union of the two objects. -/
theorem select_join {left right : String} {first second : Query} (hleft : ofString left = .ok first)
    (hright : ofString right = .ok second) :
    ofString (left ++ "," ++ right) = .ok ⟨first.clauses ++ second.clauses⟩ ∧
    ∀ (options : Options) (root : Value),
      (∀ reason, select options left root = .error reason →
        select options (left ++ "," ++ right) root = .error reason) ∧
      (options.onDuplicate = .overwrite → ∀ found, select options left root = .ok found →
        (∀ reason, select options right root = .error reason →
          select options (left ++ "," ++ right) root = .error reason) ∧
        (∀ other, select options right root = .ok other →
          ∃ result, select options (left ++ "," ++ right) root = .ok result)) ∧
      (options.onDuplicate = .fail →
        ((∃ result, select options (left ++ "," ++ right) root = .ok result) ↔
          (∃ found, select options left root = .ok found) ∧ (∃ other, select options right root = .ok other) ∧
            ∀ key ∈ first.keys, key ∉ second.keys)) ∧
      ∀ result, select options (left ++ "," ++ right) root = .ok result →
        ∃ fields others : Fields Value, select options left root = .ok (.object fields) ∧
          select options right root = .ok (.object others) ∧ result = .object (Fields.union fields others) ∧
          ∀ key, (Fields.union fields others).lookup key = (others.lookup key).or (fields.lookup key) := by
  have hjoin := ofString_join hleft hright
  refine ⟨hjoin, fun options root => ⟨?_, ?_, ?_, ?_⟩⟩
  · intro reason hreason
    obtain ⟨cause, hcause, rfl⟩ := (select_eq_error_iff hleft).1 hreason
    exact (select_eq_error_iff hjoin).2 ⟨cause, evaluate_append_of_error hcause, rfl⟩
  · intro hoverwrite found hfound
    obtain ⟨fields, hfields, rfl⟩ := (select_eq_ok_iff hleft).1 hfound
    constructor
    · intro reason hreason
      obtain ⟨cause, hcause, rfl⟩ := (select_eq_error_iff hright).1 hreason
      exact (select_eq_error_iff hjoin).2 ⟨cause, evaluate_append_of_overwrite hoverwrite hfields hcause, rfl⟩
    · intro other hother
      obtain ⟨others, hothers, rfl⟩ := (select_eq_ok_iff hright).1 hother
      refine ⟨_, (select_eq_ok_iff hjoin).2 ⟨Fields.union fields others, evaluate_append_eq_ok_iff.2 ⟨?_, ?_⟩, rfl⟩⟩
      · simp [hoverwrite]
      · exact ⟨fields, others, hfields, hothers, rfl⟩
  · intro hfail
    simp only [select_eq_ok_iff hjoin, select_eq_ok_iff hleft, select_eq_ok_iff hright, evaluate_append_eq_ok_iff]
    constructor
    · rintro ⟨_, _, ⟨hdisjoint, fields, others, hfields, hothers, rfl⟩, rfl⟩
      exact ⟨⟨_, fields, hfields, rfl⟩, ⟨_, others, hothers, rfl⟩, fun key hkey => hdisjoint hfail hkey⟩
    · rintro ⟨⟨_, fields, hfields, rfl⟩, ⟨_, others, hothers, rfl⟩, hdisjoint⟩
      exact ⟨_, _, ⟨fun _ key hkey => hdisjoint key hkey, fields, others, hfields, hothers, rfl⟩, rfl⟩
  · intro result hresult
    obtain ⟨_, hunion, rfl⟩ := (select_eq_ok_iff hjoin).1 hresult
    obtain ⟨_, fields, others, hfields, hothers, rfl⟩ := evaluate_append_eq_ok_iff.1 hunion
    refine ⟨fields, others, (select_eq_ok_iff hleft).2 ⟨fields, hfields, rfl⟩,
      (select_eq_ok_iff hright).2 ⟨others, hothers, rfl⟩, rfl, ?_⟩
    exact Fields.lookup_union (sorted_of_evaluate hfields) (sorted_of_evaluate hothers)

/-- A key that both queries write is refused in any document, also in one where neither of them finds anything. -/
theorem select_join_common_key :
    ofString "a=x" = .ok ⟨[⟨["a"], "x"⟩]⟩ ∧ ofString "b=x" = .ok ⟨[⟨["b"], "x"⟩]⟩ ∧
      ∀ root, ¬∃ result, select .strict ("a=x" ++ "," ++ "b=x") root = .ok result := by
  have hleft : ofString "a=x" = .ok ⟨[⟨["a"], "x"⟩]⟩ := (ofString_eq_ok_iff _ _).2 (by decide)
  have hright : ofString "b=x" = .ok ⟨[⟨["b"], "x"⟩]⟩ := (ofString_eq_ok_iff _ _).2 (by decide)
  refine ⟨hleft, hright, fun root hresult => ?_⟩
  have hdisjoint := (((select_join hleft hright).2 .strict root).2.2.1 rfl).1 hresult
  exact absurd (hdisjoint.2.2 "x") (by decide)

end Pluck.Query
