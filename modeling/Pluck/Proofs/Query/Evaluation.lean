import Pluck.Proofs.Document.Fields
import Pluck.Query.Evaluation

/-!
# What an evaluation comes to

The course of an evaluation says how the clauses are gone through. What it comes to depends on much less: whether the
options refuse one of the clauses, and if not, where the path of each clause arrives. `evaluate_eq_ok_iff` says this for
an evaluation that succeeds. Where one may fail, `ofClauses_append` takes its course apart at any clause. Two
evaluations are compared by the `report` of their courses, which leaves out the path that an error names.
-/

namespace Pluck

/-! ### Following a path -/

namespace Arrival

def value? : Arrival → Option Value
  | found value => some value
  | missing | mismatch .. => none

def isMismatch : Arrival → Bool
  | mismatch .. => true
  | found _ | missing => false

/-- The path goes on from the value at which it has arrived, if it has. -/
def goOn (arrival : Arrival) (path : List String) : Arrival :=
  match arrival with
  | found value => value.follow path
  | missing => missing
  | mismatch name kind => mismatch name kind

theorem eq_found_of_value? {arrival : Arrival} {value : Value} (hvalue : arrival.value? = some value) :
    arrival = .found value := by
  cases arrival with
  | found found => exact congrArg Arrival.found (Option.some.inj hvalue)
  | missing => cases hvalue
  | mismatch name kind => cases hvalue

theorem value?_goOn_eq_none {arrival : Arrival} (hvalue : arrival.value? = none) (path : List String) :
    (arrival.goOn path).value? = none := by
  cases arrival with
  | found found => cases hvalue
  | missing => rfl
  | mismatch name kind => rfl

end Arrival

theorem Document.follow_append (value : Value) (path later : List String) :
    value.follow (path ++ later) = (value.follow path).goOn later := by
  induction path generalizing value with
  | nil => rfl
  | cons name rest ih =>
    rw [List.cons_append, follow, follow]
    cases value.lookup name with
    | found field => exact ih field
    | missing => rfl
    | mismatch name kind => rfl

theorem Document.follow_object_cons (fields : Fields Value) (name : String) (rest : List String) :
    Document.follow (.object fields) (name :: rest) =
      ((fields.lookup name).elim Arrival.missing Arrival.found).goOn rest := by
  rw [follow, lookup]
  cases fields.lookup name <;> rfl

/-! ### One clause -/

/-- The error without the path that it names, which is the whole path of its clause. -/
def EvaluationError.withoutPath : EvaluationError → EvaluationError
  | mismatch _ name kind => mismatch "" name kind
  | duplicate key => duplicate key

namespace Clause

variable {options : Options} {root : Value} {used : List String} {clause : Clause}

/-- The field that the clause adds to an answer, if its path leads to a value. -/
def entry? (root : Value) (clause : Clause) : Option (String × Value) :=
  (root.follow clause.path).value?.map (clause.key, ·)

/-- An evaluation goes no further than to the clause, after clauses with the keys `used`. -/
def IsRefused (options : Options) (root : Value) (used : List String) (clause : Clause) : Prop :=
  (options.onDuplicate = .fail ∧ clause.key ∈ used) ∨
    (options.onMismatch = .fail ∧ (root.follow clause.path).isMismatch)

theorem resolve_eq_ok_iff {value : Option Value} :
    clause.resolve options root = .ok value ↔
      ¬(options.onMismatch = .fail ∧ (root.follow clause.path).isMismatch) ∧
        value = (root.follow clause.path).value? := by
  rw [resolve]
  cases root.follow clause.path with
  | found found => simp [Arrival.isMismatch, Arrival.value?, eq_comm]
  | missing => simp [Arrival.isMismatch, Arrival.value?, eq_comm]
  | mismatch name kind =>
    cases hmismatch : options.onMismatch <;> simp [Arrival.isMismatch, Arrival.value?, eq_comm]

/-- What is found depends only on where the path arrives, and so does the error but for the path that it names. -/
theorem mapError_resolve_congr {other : Value} {twin : Clause}
    (harrival : root.follow clause.path = other.follow twin.path) :
    (clause.resolve options root).mapError EvaluationError.withoutPath =
      (twin.resolve options other).mapError EvaluationError.withoutPath := by
  rw [resolve, resolve, harrival]
  cases other.follow twin.path with
  | found value => rfl
  | missing => rfl
  | mismatch name kind => cases options.onMismatch <;> rfl

theorem mapError_outcome_congr {other : Value} {twin : Clause} (hkey : twin.key = clause.key)
    (harrival : root.follow clause.path = other.follow twin.path) :
    (clause.outcome options root used).mapError EvaluationError.withoutPath =
      (twin.outcome options other used).mapError EvaluationError.withoutPath := by
  rw [outcome, outcome, hkey]
  split
  · rfl
  · exact mapError_resolve_congr harrival

theorem outcome_eq_ok_iff {value : Option Value} :
    clause.outcome options root used = .ok value ↔
      ¬clause.IsRefused options root used ∧ value = (root.follow clause.path).value? := by
  rw [outcome, IsRefused, not_or]
  by_cases hduplicate : options.onDuplicate = .fail ∧ clause.key ∈ used
  · simp [hduplicate]
  · rw [if_neg hduplicate, resolve_eq_ok_iff, and_assoc]
    exact (and_iff_right hduplicate).symm

theorem outcome_of_overwrite (hoverwrite : options.onDuplicate = .overwrite) :
    clause.outcome options root used = clause.resolve options root := by
  rw [outcome, if_neg]
  simp [hoverwrite]

end Clause

/-! ### One clause after the other -/

namespace Course

variable {options : Options} {root : Value} {used : List String} {clauses : List Clause}

theorem ofClauses_append (first second : List Clause) :
    ofClauses options root used (first ++ second) =
      match ofClauses options root used first with
      | ⟨steps, some reason⟩ => ⟨steps, some reason⟩
      | ⟨steps, none⟩ =>
        let later := ofClauses options root ((first.map Clause.key).reverse ++ used) second
        ⟨steps ++ later.steps, later.error⟩ := by
  induction first generalizing used with
  | nil => rfl
  | cons clause first ih =>
    rw [List.cons_append, ofClauses, ofClauses]
    cases clause.outcome options root used with
    | error reason => rfl
    | ok value =>
      simp only [ih, List.map_cons, List.reverse_cons, List.append_assoc, List.singleton_append]
      rcases ofClauses options root (clause.key :: used) first with ⟨steps, _ | reason⟩ <;> rfl

/-- The course depends on the document only through the places where the clauses arrive. -/
theorem ofClauses_congr {other : Value}
    (harrival : ∀ clause ∈ clauses, root.follow clause.path = other.follow clause.path) :
    ofClauses options root used clauses = ofClauses options other used clauses := by
  induction clauses generalizing used with
  | nil => rfl
  | cons clause rest ih =>
    obtain ⟨hclause, hrest⟩ := List.forall_mem_cons.1 harrival
    rw [ofClauses, ofClauses, Clause.outcome, Clause.outcome, Clause.resolve, Clause.resolve, hclause, ih hrest]

/-- Where a key may be used again, it makes no difference which ones have been. -/
theorem ofClauses_of_overwrite (hoverwrite : options.onDuplicate = .overwrite) (used others : List String) :
    ofClauses options root used clauses = ofClauses options root others clauses := by
  induction clauses generalizing used others with
  | nil => rfl
  | cons clause rest ih =>
    rw [ofClauses, ofClauses, Clause.outcome_of_overwrite hoverwrite, Clause.outcome_of_overwrite hoverwrite,
      ih (clause.key :: used) (clause.key :: others)]

/-- The options admit the clauses after clauses with the keys `used`. -/
def Admitted (options : Options) (root : Value) (used : List String) (clauses : List Clause) : Prop :=
  (options.onDuplicate = .fail → (clauses.map Clause.key).Nodup ∧ ∀ clause ∈ clauses, clause.key ∉ used) ∧
    (options.onMismatch = .fail → ∀ clause ∈ clauses, (root.follow clause.path).isMismatch = false)

theorem admitted_nil : Admitted options root used [] := by
  simp [Admitted]

theorem nodup_keys_cons {clause : Clause} :
    (((clause :: clauses).map Clause.key).Nodup ∧ ∀ other ∈ clause :: clauses, other.key ∉ used) ↔
      clause.key ∉ used ∧ (clauses.map Clause.key).Nodup ∧ ∀ other ∈ clauses, other.key ∉ clause.key :: used := by
  have hfresh : (∀ other ∈ clauses, other.key ∉ clause.key :: used) ↔
      clause.key ∉ clauses.map Clause.key ∧ ∀ other ∈ clauses, other.key ∉ used := by
    simp only [List.mem_cons, not_or, List.mem_map, not_exists, not_and, forall_and]
  rw [List.map_cons, List.nodup_cons, List.forall_mem_cons, hfresh]
  exact ⟨fun ⟨⟨hkey, hrest⟩, hclause, hused⟩ => ⟨hclause, hrest, hkey, hused⟩,
    fun ⟨hclause, hrest, hkey, hused⟩ => ⟨⟨hkey, hrest⟩, hclause, hused⟩⟩

theorem admitted_cons {clause : Clause} :
    Admitted options root used (clause :: clauses) ↔
      ¬clause.IsRefused options root used ∧ Admitted options root (clause.key :: used) clauses := by
  rw [Admitted, Admitted, Clause.IsRefused, not_or, not_and, not_and, Bool.not_eq_true, nodup_keys_cons,
    List.forall_mem_cons, imp_and, imp_and, imp_and, and_and_and_comm]

theorem error_ofClauses_eq_none_iff :
    (ofClauses options root used clauses).error = none ↔ Admitted options root used clauses := by
  induction clauses generalizing used with
  | nil => exact iff_of_true rfl admitted_nil
  | cons clause rest ih =>
    rw [ofClauses, admitted_cons, ← ih]
    cases houtcome : clause.outcome options root used with
    | error reason =>
      have hrefused : ¬¬clause.IsRefused options root used := by
        intro haccepted
        rw [Clause.outcome_eq_ok_iff.2 ⟨haccepted, rfl⟩] at houtcome
        cases houtcome
      simp [hrefused]
    | ok value => simp [(Clause.outcome_eq_ok_iff.1 houtcome).1]

theorem entries_ofClauses (herror : (ofClauses options root used clauses).error = none) :
    (ofClauses options root used clauses).entries = clauses.filterMap (Clause.entry? root) := by
  induction clauses generalizing used with
  | nil => rfl
  | cons clause rest ih =>
    rw [ofClauses] at herror ⊢
    cases houtcome : clause.outcome options root used with
    | error reason => simp [houtcome] at herror
    | ok value =>
      simp only [houtcome] at herror ⊢
      obtain ⟨_, rfl⟩ := Clause.outcome_eq_ok_iff.1 houtcome
      have hlater := ih herror
      rw [entries] at hlater
      rw [entries, List.filterMap_cons, List.filterMap_cons, hlater]
      rfl

theorem result_ofClauses_eq_ok_iff {fields : Fields Value} :
    (ofClauses options root used clauses).result = .ok fields ↔
      Admitted options root used clauses ∧ fields = .ofList (clauses.filterMap (Clause.entry? root)) := by
  rw [result, ← error_ofClauses_eq_none_iff]
  cases herror : (ofClauses options root used clauses).error with
  | some reason => simp
  | none => simp [entries_ofClauses herror, eq_comm]

/-- What is left of a course when the error does not say its path. -/
def report (course : Course) : List (String × Value) × Option EvaluationError :=
  (course.entries, course.error.map EvaluationError.withoutPath)

theorem mapError_result_congr {course other : Course} (hreport : course.report = other.report) :
    course.result.mapError EvaluationError.withoutPath = other.result.mapError EvaluationError.withoutPath := by
  obtain ⟨hentries, herror⟩ := Prod.mk.inj hreport
  rw [result, result, hentries]
  cases hcourse : course.error with
  | none =>
    rw [hcourse, Option.map_none, eq_comm, Option.map_eq_none_iff] at herror
    rw [herror]
  | some reason =>
    rw [hcourse, Option.map_some, eq_comm, Option.map_eq_some_iff] at herror
    obtain ⟨cause, hother, hsame⟩ := herror
    rw [hother]
    exact congrArg Except.error hsame.symm

theorem report_ofClauses_cons {clause : Clause} {rest : List Clause} :
    (ofClauses options root used (clause :: rest)).report =
      match (clause.outcome options root used).mapError EvaluationError.withoutPath with
      | .error reason => ([], some reason)
      | .ok value =>
        let later := (ofClauses options root (clause.key :: used) rest).report
        ((value.map (clause.key, ·)).toList ++ later.1, later.2) := by
  rw [ofClauses]
  cases clause.outcome options root used with
  | error reason => rfl
  | ok value => cases value <;> rfl

/-- Clauses with the same keys that arrive at the same places have the same report, whatever their paths are. -/
theorem report_ofClauses_map {other : Value} {twin : Clause → Clause} (hkey : ∀ clause, (twin clause).key = clause.key)
    (harrival : ∀ clause ∈ clauses, other.follow clause.path = root.follow (twin clause).path) :
    (ofClauses options other used clauses).report = (ofClauses options root used (clauses.map twin)).report := by
  induction clauses generalizing used with
  | nil => rfl
  | cons clause rest ih =>
    obtain ⟨hclause, hrest⟩ := List.forall_mem_cons.1 harrival
    rw [List.map_cons, report_ofClauses_cons, report_ofClauses_cons,
      Clause.mapError_outcome_congr (hkey clause) hclause, hkey clause, ih hrest]

end Course

/-! ### A whole query -/

namespace Query

variable {options : Options} {root : Value} {query : Query}

/-- An evaluation succeeds exactly if no key is used twice where that is refused, and no path goes on at a value without
fields where that is refused. The answer is then the same under all options. -/
theorem evaluate_eq_ok_iff {fields : Fields Value} :
    query.evaluate options root = .ok fields ↔
      (options.onDuplicate = .fail → query.keys.Nodup) ∧
      (options.onMismatch = .fail → ∀ clause ∈ query.clauses, (root.follow clause.path).isMismatch = false) ∧
      fields = .ofList (query.clauses.filterMap (Clause.entry? root)) := by
  simp only [evaluate, course, Course.result_ofClauses_eq_ok_iff, Course.Admitted, List.not_mem_nil, not_false_eq_true,
    implies_true, and_true, and_assoc]
  rfl

end Query

end Pluck
