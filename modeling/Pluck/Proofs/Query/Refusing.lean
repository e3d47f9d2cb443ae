import Mathlib.Data.Nat.Find
import Pluck.Proofs.Document.Paths
import Pluck.Proofs.Query.Evaluation

/-!
# The clause at which an evaluation fails

Options can refuse a clause for two reasons: its key is that of an earlier clause, or its path breaks off at a value
without fields. `IsBadAt` says this of a place in a query, without regard to the clauses that are evaluated before it.
An evaluation goes through the clauses up to the first bad one (`failsAt_iff`), and its error is about that clause:
`evaluate_fails_at_first`. It is in the error of a clause that is bad for both reasons that one sees the order in which
they are looked at.
-/

namespace Pluck

/-! ### One clause -/

namespace Clause

variable {options : Options} {root : Value} {used others : List String} {clause : Clause}

theorem isMismatch_iff : (root.follow clause.path).isMismatch ↔ ∃ name kind, root.BreaksAt clause.path name kind := by
  simp only [← Document.follow_eq_mismatch_iff]
  cases root.follow clause.path <;> simp [Arrival.isMismatch]

theorem outcome_of_duplicate (hfail : options.onDuplicate = .fail) (hkey : clause.key ∈ used) :
    clause.outcome options root used = .error (.duplicate clause.key) := by
  rw [outcome, if_pos ⟨hfail, hkey⟩]

theorem outcome_of_breaksAt {name : String} {kind : Kind} (hfresh : ¬(options.onDuplicate = .fail ∧ clause.key ∈ used))
    (hfail : options.onMismatch = .fail) (hbreaks : root.BreaksAt clause.path name kind) :
    clause.outcome options root used = .error (.mismatch clause.pathText name kind) := by
  simp only [outcome, if_neg hfresh, resolve, Document.follow_eq_mismatch_iff.2 hbreaks, hfail]

end Clause

/-! ### The course up to the first refused clause -/

namespace Course

variable {options : Options} {root : Value} {used : List String} {clauses before after : List Clause} {clause : Clause}

/-- The steps over clauses of which none is refused. -/
def stepsOf (root : Value) (clauses : List Clause) : List (Clause × Option Value) :=
  clauses.map fun clause => (clause, (root.follow clause.path).value?)

@[simp] theorem length_stepsOf (root : Value) (clauses : List Clause) :
    (stepsOf root clauses).length = clauses.length :=
  List.length_map _

theorem ofClauses_of_admitted (hadmitted : Admitted options root used clauses) :
    ofClauses options root used clauses = ⟨stepsOf root clauses, none⟩ := by
  induction clauses generalizing used with
  | nil => rfl
  | cons clause rest ih =>
    obtain ⟨hclause, hrest⟩ := admitted_cons.1 hadmitted
    rw [ofClauses, Clause.outcome_eq_ok_iff.2 ⟨hclause, rfl⟩, ih hrest]
    rfl

theorem ofClauses_of_outcome {reason : EvaluationError} (hbefore : Admitted options root used before)
    (houtcome : clause.outcome options root ((before.map Clause.key).reverse ++ used) = .error reason) :
    ofClauses options root used (before ++ clause :: after) = ⟨stepsOf root before, some reason⟩ := by
  rw [ofClauses_append, ofClauses_of_admitted hbefore, ofClauses, houtcome]
  simp

theorem admitted_concat_iff :
    Admitted options root used (clauses ++ [clause]) ↔
      Admitted options root used clauses ∧
        ¬clause.IsRefused options root ((clauses.map Clause.key).reverse ++ used) := by
  induction clauses generalizing used with
  | nil => simp [admitted_cons, admitted_nil]
  | cons first rest ih =>
    rw [List.cons_append, admitted_cons, admitted_cons, ih, and_assoc]
    simp

end Course

/-! ### Bad places -/

namespace Query

/-- The clause at this place has the key of an earlier one. -/
def RepeatsKeyAt (query : Query) (place : Nat) : Prop :=
  ∃ earlier < place, ∃ key, query.keys[earlier]? = some key ∧ query.keys[place]? = some key

/-- The options refuse the clause at this place, because it repeats a key or because its path breaks off. -/
def IsBadAt (options : Options) (root : Value) (query : Query) (place : Nat) : Prop :=
  ∃ clause, query.clauses[place]? = some clause ∧
    ((options.onDuplicate = .fail ∧ query.RepeatsKeyAt place) ∨
      (options.onMismatch = .fail ∧ ∃ name kind, root.BreaksAt clause.path name kind))

/-- The first clauses of the query, so many of them. -/
def take (count : Nat) (query : Query) : Query :=
  ⟨query.clauses.take count⟩

variable {options : Options} {root : Value} {query : Query} {place : Nat} {clause : Clause}

theorem repeatsKeyAt_iff (hclause : query.clauses[place]? = some clause) :
    query.RepeatsKeyAt place ↔ clause.key ∈ ((query.clauses.take place).map Clause.key).reverse := by
  have hplace : query.keys[place]? = some clause.key := by rw [keys, List.getElem?_map, hclause, Option.map_some]
  rw [List.mem_reverse, List.map_take, List.mem_iff_getElem?, RepeatsKeyAt, hplace]
  simp only [List.getElem?_take, Option.ite_none_right_eq_some, Option.some.injEq, exists_eq_right', keys]

theorem isBadAt_iff (hclause : query.clauses[place]? = some clause) :
    query.IsBadAt options root place ↔
      clause.IsRefused options root ((query.clauses.take place).map Clause.key).reverse := by
  rw [Clause.IsRefused, ← repeatsKeyAt_iff hclause, Clause.isMismatch_iff, IsBadAt]
  constructor
  · rintro ⟨other, hother, hbad⟩
    obtain rfl := Option.some.inj (hclause.symm.trans hother)
    exact hbad
  · exact fun hbad => ⟨clause, hclause, hbad⟩

theorem admitted_take_iff (count : Nat) :
    Course.Admitted options root [] (query.clauses.take count) ↔
      ∀ place < count, ¬query.IsBadAt options root place := by
  induction count with
  | zero => simp [Course.admitted_nil]
  | succ count ih =>
    rw [List.take_add_one, Nat.forall_lt_succ_right, ← ih]
    cases hclause : query.clauses[count]? with
    | none => simp [IsBadAt, hclause]
    | some clause => rw [Option.toList_some, Course.admitted_concat_iff, List.append_nil, isBadAt_iff hclause]

theorem exists_evaluate_take_iff (options : Options) (root : Value) (query : Query) (count : Nat) :
    (∃ fields, (query.take count).evaluate options root = .ok fields) ↔
      ∀ place < count, ¬query.IsBadAt options root place := by
  rw [← admitted_take_iff, take, evaluate, course]
  simp only [Course.result_ofClauses_eq_ok_iff, exists_and_left, exists_eq, and_true]

theorem lt_length_of_isBadAt (hbad : query.IsBadAt options root place) : place < query.clauses.length := by
  obtain ⟨clause, hclause, _⟩ := hbad
  exact (List.getElem?_eq_some_iff.1 hclause).1

/-- The evaluation goes through the clauses before the first bad place and ends with the error of the clause there. -/
theorem course_of_first {reason : EvaluationError} (hclause : query.clauses[place]? = some clause)
    (hfirst : ∀ earlier < place, ¬query.IsBadAt options root earlier)
    (houtcome : clause.outcome options root ((query.clauses.take place).map Clause.key).reverse = .error reason) :
    query.course options root = ⟨Course.stepsOf root (query.clauses.take place), some reason⟩ := by
  have hclauses : query.clauses.take place ++ clause :: query.clauses.drop (place + 1) = query.clauses := by
    obtain ⟨hlt, rfl⟩ := List.getElem?_eq_some_iff.1 hclause
    rw [← List.drop_eq_getElem_cons hlt, List.take_append_drop]
  have hcourse :
      Course.ofClauses options root [] (query.clauses.take place ++ clause :: query.clauses.drop (place + 1)) =
        ⟨Course.stepsOf root (query.clauses.take place), some reason⟩ :=
    Course.ofClauses_of_outcome ((admitted_take_iff place).2 hfirst) (by rwa [List.append_nil])
  rwa [hclauses] at hcourse

/-- A place is bad, or an earlier one is, exactly if the evaluation fails. -/
theorem exists_evaluate_eq_error_iff :
    (∃ reason, query.evaluate options root = .error reason) ↔ ∃ place, query.IsBadAt options root place := by
  have hall := exists_evaluate_take_iff options root query query.clauses.length
  rw [take, List.take_length] at hall
  constructor
  · rintro ⟨reason, hreason⟩
    refine Classical.byContradiction fun hgood => ?_
    obtain ⟨fields, hfields⟩ := hall.2 fun place _ hbad => hgood ⟨place, hbad⟩
    cases hreason.symm.trans hfields
  · rintro ⟨place, hbad⟩
    cases hresult : query.evaluate options root with
    | error reason => exact ⟨reason, rfl⟩
    | ok fields => exact absurd hbad (hall.1 ⟨fields, hresult⟩ place (lt_length_of_isBadAt hbad))

/-- An evaluation fails exactly if some place is bad. It fails at the first bad place, and says there that the key is
used again, if it is and that is refused, and otherwise where the path breaks off, with the whole path. A path that goes
on from null, or to a field that is not there, is not in error under any options. -/
theorem evaluate_fails_at_first (options : Options) (root : Value) (query : Query) :
    ((∃ reason, query.evaluate options root = .error reason) ↔ ∃ place, query.IsBadAt options root place) ∧
    (∀ place clause, query.clauses[place]? = some clause → query.IsBadAt options root place →
      (∀ earlier < place, ¬query.IsBadAt options root earlier) →
      (options.onDuplicate = .fail ∧ query.RepeatsKeyAt place →
        query.evaluate options root = .error (.duplicate clause.key)) ∧
      (¬(options.onDuplicate = .fail ∧ query.RepeatsKeyAt place) →
        ∃ name kind, root.BreaksAt clause.path name kind ∧
          query.evaluate options root = .error (.mismatch (".".intercalate clause.path) name kind))) ∧
    ∀ (clause : Clause) passed name rest value, clause.path = passed ++ name :: rest → root.Leads passed value →
      (value = .null ∨ ∃ fields, value = .object fields ∧ List.lookup name fields = none) →
      clause.resolve options root = .ok none := by
  refine ⟨exists_evaluate_eq_error_iff, fun place clause hclause hbad hfirst => ?_, ?_⟩
  · rw [repeatsKeyAt_iff hclause]
    constructor
    · rintro ⟨hfail, hkey⟩
      rw [evaluate, course_of_first hclause hfirst (Clause.outcome_of_duplicate hfail hkey)]
      rfl
    · intro hfresh
      rw [isBadAt_iff hclause, Clause.IsRefused, Clause.isMismatch_iff] at hbad
      obtain ⟨hfail, name, kind, hbreaks⟩ := hbad.resolve_left hfresh
      refine ⟨name, kind, hbreaks, ?_⟩
      rw [evaluate, course_of_first hclause hfirst (Clause.outcome_of_breaksAt hfresh hfail hbreaks)]
      rfl
  · intro clause passed name rest value hpath hpassed hname
    rw [Clause.resolve, hpath, hpassed.follow_eq_missing hname]

/-- A path that goes on from null is not in error. The clause after it is bad for both reasons under strict options, and
then it is its key that is refused. -/
theorem evaluate_fails_at_first_name :
    let root : Value := .object [("id", .null), ("name", .string "text")]
    let query : Query := ⟨[⟨["id", "x"], "a"⟩, ⟨["name", "first", "y"], "a"⟩]⟩
    let overwriting : Options := ⟨.fail, .overwrite⟩
    query.IsBadAt .strict root 1 ∧ (∀ earlier < 1, ¬query.IsBadAt .strict root earlier) ∧
      query.evaluate .strict root = .error (.duplicate "a") ∧
      query.IsBadAt overwriting root 1 ∧ (∀ earlier < 1, ¬query.IsBadAt overwriting root earlier) ∧
      query.evaluate overwriting root = .error (.mismatch "name.first.y" "first" .string) ∧
      (Clause.mk ["id", "x"] "a").resolve .strict root = .ok none := by
  intro root query overwriting
  have hbad : ∀ options, options = .strict ∨ options = overwriting → query.IsBadAt options root 1 ∧
      ∀ earlier < 1, ¬query.IsBadAt options root earlier := by
    rintro options (rfl | rfl) <;>
      refine ⟨(isBadAt_iff rfl).2 (.inr ⟨rfl, rfl⟩), fun earlier hearlier => ?_⟩ <;>
      rw [Nat.lt_one_iff.1 hearlier, isBadAt_iff rfl, Clause.IsRefused] <;> decide
  have hstrict := hbad .strict (.inl rfl)
  have hoverwriting := hbad overwriting (.inr rfl)
  have hrepeats : query.RepeatsKeyAt 1 := ⟨0, Nat.one_pos, "a", rfl, rfl⟩
  obtain ⟨name, kind, hbreaks, herror⟩ :=
    ((evaluate_fails_at_first overwriting root query).2.1 1 _ rfl hoverwriting.1 hoverwriting.2).2
      fun hrefused => absurd hrefused.1 (by decide)
  obtain ⟨rfl, rfl⟩ : "first" = name ∧ Kind.string = kind :=
    Arrival.mismatch.inj (Document.follow_eq_mismatch_iff.2 hbreaks)
  exact ⟨hstrict.1, hstrict.2,
    ((evaluate_fails_at_first .strict root query).2.1 1 _ rfl hstrict.1 hstrict.2).1 ⟨rfl, hrepeats⟩,
    hoverwriting.1, hoverwriting.2, herror,
    (evaluate_fails_at_first .strict root query).2.2 _ ["id"] "x" [] .null rfl (.field rfl (.here _)) (.inl rfl)⟩

end Query

end Pluck
