import Pluck.Json.Printer
import Pluck.Proofs.Document.Rearranging
import Pluck.Proofs.Query.Nesting
import Pluck.Proofs.Text.Bytes

/-!
# Selections and the order of entries

A value that is built from entries does not depend on the order in which they are inserted, and so neither does what is
selected from it. Nor does a selection depend on the order in which the fields of an object are gone through: over a
document whose fields are listed in another order, every clause has the same outcome up to that order
(`ofClauses_arranged`), and so has the selection (`select_arranged`). When the answer is printed, the fields of each
object are put into the order of the bytes of their names, whatever order they come in. `select_rearranged` says all of
this.
-/

namespace Pluck

open Document

variable {options : Options} {root listed : Value}

/-! ### One clause -/

namespace Clause

theorem resolve_arranged (hsame : root.Rearranged listed) (clause : Clause) :
    (clause.resolve options listed).map (Option.map arranged) =
      (clause.resolve options root).map (Option.map arranged) := by
  have harrival := hsame.follow clause.path
  rw [resolve, resolve]
  generalize root.follow clause.path = first at harrival ⊢
  generalize listed.follow clause.path = second at harrival ⊢
  cases harrival with
  | found hvalue => exact congrArg (Except.ok ∘ some) hvalue.arranged_eq.symm
  | same => rfl

theorem outcome_arranged (hsame : root.Rearranged listed) (used : List String) (clause : Clause) :
    (clause.outcome options listed used).map (Option.map arranged) =
      (clause.outcome options root used).map (Option.map arranged) := by
  rw [outcome, outcome]
  split
  · rfl
  · exact resolve_arranged hsame clause

end Clause

/-! ### A whole selection -/

namespace Course

/-- The course with the values that were found built from their entries. -/
def arranged (course : Course) : Course :=
  ⟨course.steps.map fun (clause, value) => (clause, value.map Document.arranged), course.error⟩

theorem entries_arranged (course : Course) :
    course.arranged.entries = course.entries.map fun entry => (entry.1, entry.2.arranged) := by
  rw [entries, arranged, List.filterMap_map, entries, List.map_filterMap]
  refine List.filterMap_congr fun step _ => ?_
  obtain ⟨clause, value⟩ := step
  cases value <;> rfl

theorem result_arranged (course : Course) :
    (course.result.map object).map Document.arranged = course.arranged.result.map object := by
  rw [result, result, entries_arranged, show course.arranged.error = course.error from rfl]
  cases course.error with
  | some reason => rfl
  | none => exact congrArg Except.ok (arranged_ofEntries course.entries)

theorem ofClauses_arranged (hsame : root.Rearranged listed) (used : List String) (clauses : List Clause) :
    (ofClauses options listed used clauses).arranged = (ofClauses options root used clauses).arranged := by
  induction clauses generalizing used with
  | nil => rfl
  | cons clause rest ih =>
    have houtcome : (clause.outcome options listed used).map (Option.map Document.arranged) =
        (clause.outcome options root used).map (Option.map Document.arranged) := clause.outcome_arranged hsame used
    rw [ofClauses, ofClauses]
    generalize clause.outcome options listed used = second at houtcome ⊢
    generalize clause.outcome options root used = first at houtcome ⊢
    cases second with
    | error reason =>
      cases first with
      | error => rw [Except.error.inj houtcome]
      | ok => cases houtcome
    | ok value =>
      cases first with
      | error => cases houtcome
      | ok other =>
        obtain ⟨hsteps, herror⟩ := Course.mk.inj (ih (clause.key :: used))
        have hvalue : value.map Document.arranged = other.map Document.arranged := Except.ok.inj houtcome
        simp only [arranged, List.map_cons, hvalue, hsteps, herror]

end Course

theorem select_arranged (hsame : root.Rearranged listed) (options : Options) (text : String) :
    (select options text listed).map arranged = (select options text root).map arranged := by
  by_cases hempty : text.isEmpty
  · rw [select, select, if_pos hempty, if_pos hempty]
    exact congrArg Except.ok hsame.arranged_eq.symm
  · cases hread : Query.ofString text with
    | error reason => rw [select, select, if_neg hempty, if_neg hempty, hread]
    | ok query =>
      have hresult : ((query.evaluate options listed).map object).map arranged =
          ((query.evaluate options root).map object).map arranged := by
        rw [Query.evaluate, Query.evaluate, Course.result_arranged, Course.result_arranged, Query.course, Query.course,
          Course.ofClauses_arranged hsame]
      rw [Query.select_of_ofString hread, Query.select_of_ofString hread]
      generalize query.evaluate options listed = second at hresult ⊢
      generalize query.evaluate options root = first at hresult ⊢
      cases second with
      | error reason =>
        cases first with
        | error => rw [Except.error.inj hresult]
        | ok => cases hresult
      | ok fields =>
        cases first with
        | error => cases hresult
        | ok others => exact congrArg Except.ok (Except.ok.inj hresult)

/-! ### What is printed -/

/-- To collect the fields of a document once more changes nothing if those of the value were in order. -/
theorem arranged_toJson {value : Value} (hvalue : value.IsOrdered) : value.toJson.arranged = value.toJson :=
  hvalue.toJson.arranged_eq

theorem toJson_arranged_of_isOrdered {answer : Value} (hanswer : answer.IsOrdered) (hsame : answer.Rearranged listed) :
    listed.toJson.arranged = answer.toJson := by
  rw [toJson, ← (hsame.mapNumber Number.toJson?).arranged_eq, ← toJson, arranged_toJson hanswer]

/-- Two values that are built from the same entries give the same selection, in whatever order the entries were
inserted, and so they do if the fields of their objects are gone through in any other order. The texts of the answer are
the same in whatever order its fields come, and the bytes of the names increase in all objects that are printed. -/
theorem select_rearranged {first second : Value} (hsame : first.Rearranged second) (options : Options) (text : String) :
    select options text second.arranged = select options text first.arranged ∧
    (∀ listed, first.arranged.Rearranged listed →
      (select options text listed).map arranged = select options text first.arranged) ∧
    ∀ answer, select options text first.arranged = .ok answer →
      (∀ printed, answer.Rearranged printed →
        Json.render printed.toJson.arranged = Json.render answer.toJson ∧
        Json.renderIndented printed.toJson.arranged = Json.renderIndented answer.toJson) ∧
      ∀ fields, answer.toJson.Contains (.object fields) →
        fields.Pairwise fun field later => Text.bytes field.1 < Text.bytes later.1 := by
  have hordered : ∀ answer, select options text first.arranged = .ok answer → answer.IsOrdered := fun answer hanswer =>
    Query.isOrdered_of_select hanswer (isOrdered_arranged first)
  refine ⟨by rw [hsame.arranged_eq], fun listed hlisted => ?_, fun answer hanswer => ⟨fun printed hprinted => ?_, ?_⟩⟩
  · rw [select_arranged hlisted]
    cases hanswer : select options text first.arranged with
    | error reason => rfl
    | ok answer => exact congrArg Except.ok (hordered answer hanswer).arranged_eq
  · rw [toJson_arranged_of_isOrdered (hordered answer hanswer) hprinted]
    exact ⟨rfl, rfl⟩
  · intro fields hfields
    exact ((hordered answer hanswer).toJson fields hfields).imp Text.bytes_lt

/-- The entries of the outer object have been exchanged, and so have those of the inner one. -/
theorem select_rearranged_nested :
    let first : Value := .object [("b", .object [("y", .boolean true), ("x", .null)]), ("a", .array [])]
    let second : Value := .object [("a", .array []), ("b", .object [("x", .null), ("y", .boolean true)])]
    let answer : Value := .object [("c", .object [("x", .null), ("y", .boolean true)])]
    first.Rearranged second ∧ select .strict "b=c" second.arranged = .ok answer ∧
      ∀ printed, answer.Rearranged printed →
        Json.render printed.toJson.arranged = "\x7b\"c\":\x7b\"x\":null,\"y\":true\x7d\x7d" := by
  intro first second answer
  have hsame : first.Rearranged second :=
    .trans (.value (rearranged_of_perm (.swap _ _ _) (by decide)) "b" [] _)
      (rearranged_of_perm (.swap _ _ _) (by decide))
  have hread : Query.ofString "b=c" = .ok ⟨[⟨["b"], "c"⟩]⟩ := (Query.ofString_eq_ok_iff _ _).2 (by decide)
  have hanswer : select .strict "b=c" first.arranged = .ok answer :=
    (Query.select_eq_ok_iff hread).2 ⟨_, by cbv, rfl⟩
  have htext : Json.render answer.toJson = "\x7b\"c\":\x7b\"x\":null,\"y\":true\x7d\x7d" := by cbv
  obtain ⟨hselect, _, hprints⟩ := select_rearranged hsame .strict "b=c"
  refine ⟨hsame, hselect.trans hanswer, fun printed hprinted => ?_⟩
  exact ((hprints answer hanswer).1 printed hprinted).1.trans htext

end Pluck
