import Pluck.Proofs.Json.Printing
import Pluck.Proofs.Query.Joining
import Pluck.Request

/-!
# Checking a query and applying it

A request that only checks its query and one that applies it read the query apart from each other, and each has a case
of its own for the empty text. Both find the same fault in a query (`Query.fault?`), before anything is looked up in the
document: `answer_agrees`. A query without a fault is then refused only by strict options.
-/

namespace Pluck

/-- What is wrong with the way in which a query is written, if anything is. -/
def Query.fault? (text : String) : Option ParseError :=
  if text.isEmpty then none
  else
    match ofString text with
    | .ok _ => none
    | .error reason => some reason

theorem select_eq_parse_iff (options : Options) (root : Value) {text : String} {reason : ParseError} :
    select options text root = .error (.parse reason) ↔ Query.fault? text = some reason := by
  by_cases hempty : text.isEmpty
  · simp [select, Query.fault?, hempty]
  · cases hread : Query.ofString text with
    | error cause => simp [select, Query.fault?, hempty, hread]
    | ok query => simp [Query.select_eq_error_iff hread, Query.fault?, hread]

/-- Nothing is refused when paths may lead nowhere and keys may be used again. -/
theorem exists_select_lenient (root : Value) {text : String} (hfault : Query.fault? text = none) :
    ∃ value, select .lenient text root = .ok value ∧ (text ≠ "" → ∃ fields, value = .object fields) ∧
      (text = "" → value = root) := by
  by_cases hempty : text = ""
  · subst hempty
    exact ⟨root, rfl, fun hne => absurd rfl hne, fun _ => rfl⟩
  · have hnonempty : text.isEmpty = false := by rwa [← Bool.not_eq_true, String.isEmpty_iff]
    rw [Query.fault?, hnonempty] at hfault
    cases hread : Query.ofString text with
    | error reason => simp [hread] at hfault
    | ok query =>
      obtain ⟨fields, hfields⟩ : ∃ fields, query.evaluate .lenient root = .ok fields :=
        ⟨_, Query.evaluate_eq_ok_iff.2 ⟨nofun, nofun, rfl⟩⟩
      exact ⟨.object fields, (Query.select_eq_ok_iff hread).2 ⟨fields, hfields, rfl⟩, fun _ => ⟨fields, rfl⟩,
        fun heq => absurd heq hempty⟩

namespace Request

variable {text : String} {json : Json}

theorem check_eq (request : Request) :
    request.check = (Query.fault? request.query).elim (.ok .valid) fun reason => .error (.query (.parse reason)) := by
  rw [check, Query.fault?]
  by_cases hempty : request.query.isEmpty
  · simp [hempty]
  · simp only [hempty]
    cases Query.ofString request.query <;> rfl

theorem applyIn_eq (request : Request) {format : Json.Format} (hread : format.read text = some json) :
    request.applyIn format text =
      ((select request.options request.query (.ofJson json)).mapError RequestError.query).map
        fun value => .selected value.toJson := by
  simp only [applyIn, hread]
  cases select request.options request.query (.ofJson json) <;> rfl

theorem applyIn_eq_parse_iff (request : Request) {format : Json.Format} (hread : format.read text = some json)
    {reason : ParseError} :
    request.applyIn format text = .error (.query (.parse reason)) ↔ Query.fault? request.query = some reason := by
  rw [applyIn_eq request hread, ← select_eq_parse_iff request.options (.ofJson json)]
  cases select request.options request.query (.ofJson json) <;> simp [Except.mapError, Except.map]

/-- Checking depends on the query alone. Whatever JSON document a query is applied to, under whatever options, it is
found to be ill written exactly if checking says so, and for the same reason. A query that is well written can be
applied to every document. It gives an object, or the document itself if the query is empty. -/
theorem answer_agrees (query : String) :
    ∃ fault : Option ParseError,
      (∀ input strictPaths rejectDuplicates,
        (Request.mk query input true strictPaths rejectDuplicates).answer =
          fault.elim (.ok .valid) fun reason => .error (.query (.parse reason))) ∧
      ∀ input json, Json.ofString? input = some json →
        (∀ strictPaths rejectDuplicates reason,
          (Request.mk query (some input) false strictPaths rejectDuplicates).answer =
            .error (.query (.parse reason)) ↔ fault = some reason) ∧
        (fault = none →
          ∃ result, (Request.mk query (some input) false false false).answer = .ok (.selected result) ∧
            (query ≠ "" → ∃ fields, result = .object fields) ∧
            (query = "" → result = (Document.ofJson json).toJson)) := by
  refine ⟨Query.fault? query, fun input strictPaths rejectDuplicates => check_eq _, fun input json hread => ⟨?_, ?_⟩⟩
  · exact fun strictPaths rejectDuplicates reason => @applyIn_eq_parse_iff _ _ _ .standard hread _
  · intro hfault
    obtain ⟨value, hselect, hobject, hroot⟩ := exists_select_lenient (.ofJson json) hfault
    refine ⟨value.toJson, ?_, fun hquery => ?_, fun hquery => ?_⟩
    · change Request.applyIn .standard _ input = _
      have hlenient : (Request.mk query (some input) false false false).options = .lenient := rfl
      rw [@applyIn_eq _ _ _ .standard hread, hlenient, hselect]
      rfl
    · obtain ⟨fields, rfl⟩ := hobject hquery
      exact ⟨_, rfl⟩
    · rw [hroot hquery]

/-- Checked without a document, the query has no fault, and so it selects an object from a document with this text. -/
theorem answer_agrees_name :
    let document : Json := .object [("name", .string "Ada")]
    Json.ofString? (document.render ++ "\n") = some document ∧
      (Request.mk "name=n" none true true true).answer = .ok .valid ∧
      ∃ fields, (Request.mk "name=n" (some (document.render ++ "\n")) false false false).answer =
        .ok (.selected (.object fields)) := by
  intro document
  have hordered : document.IsOrdered :=
    Document.isOrdered_object_iff.2 ⟨List.pairwise_singleton _ _,
      List.forall_mem_singleton.2 (Document.isOrdered_of_depth_eq_zero rfl)⟩
  have hread : Json.ofString? (document.render ++ "\n") = some document :=
    Json.ofString?_render hordered (by decide)
  have hquery : Query.ofString "name=n" = .ok ⟨[⟨["name"], "n"⟩]⟩ := (Query.ofString_eq_ok_iff _ _).2 (by decide)
  have hvalid : (Request.mk "name=n" none true true true).answer = .ok .valid := by
    refine (check_eq ⟨"name=n", none, true, true, true⟩).trans ?_
    simp [Query.fault?, hquery]
  obtain ⟨fault, hcheck, happly⟩ := answer_agrees "name=n"
  have hfault : fault = none := by
    cases fault with
    | none => rfl
    | some reason => exact absurd (hvalid.symm.trans (hcheck none true true)) nofun
  obtain ⟨result, hresult, hobject, _⟩ := (happly _ document hread).2 hfault
  obtain ⟨fields, rfl⟩ := hobject (by decide)
  exact ⟨hread, hvalid, fields, hresult⟩

end Request

end Pluck
