import Pluck.Command
import Pluck.Proofs.Json.Reading
import Pluck.Proofs.Json.Returning
import Pluck.Proofs.Query.Nesting
import Pluck.Proofs.Request.Checking

/-!
# Selections in a pipeline

A `Pipeline` passes what the command has printed to the command again, with another query and other options. Between
two of its stages a document is printed and read, and nothing is lost: the next stage starts from the value that was
selected (`read_output`). So the stages answer as if the values were handed from one to the next, and none of them
fails to read its input: `answers_eq_selections`. What is printed can always be read because a selection is no deeper
than the document, or else an object without containers in it.

All of this holds in every format whose printer can be trusted by its reader (`Json.Format.IsFaithful`). The standard
format is one of them.
-/

namespace Pluck

/-- What is read is ordered and no deeper than the limit, and what is printed of such documents is read as the same. -/
structure Json.Format.IsFaithful (format : Json.Format) : Prop where
  depth_le : ∀ {text : String} {json : Json}, format.read text = some json → json.depth ≤ maximalDepth
  isOrdered : ∀ {text : String} {json : Json}, format.read text = some json → json.IsOrdered
  read_print : ∀ {json : Json}, json.IsOrdered → json.depth ≤ maximalDepth →
    ∀ pretty, format.read (format.print pretty json ++ "\n") = some json

theorem Json.Format.isFaithful_standard : Json.Format.standard.IsFaithful where
  depth_le hread := depth_of_ofString? hread
  isOrdered hread := isOrdered_of_ofString? hread
  read_print hordered hdepth pretty := by
    cases pretty with
    | true => exact ofString?_renderIndented hordered hdepth
    | false => exact ofString?_render hordered hdepth

/-- One use of the command, on a text that is piped into it. -/
structure Stage where
  query : String
  strictPaths : Bool
  rejectDuplicates : Bool
  pretty : Bool
  deriving Repr, DecidableEq

namespace Stage

def request (stage : Stage) (input : Option String) : Request :=
  ⟨stage.query, input, false, stage.strictPaths, stage.rejectDuplicates⟩

def options (stage : Stage) : Options :=
  (stage.request none).options

def answer (format : Json.Format) (stage : Stage) (input : String) : Except RequestError RequestAnswer :=
  (stage.request (some input)).answerIn format

/-- What the command does when it finds the text on its standard input. -/
def outcome (format : Json.Format) (stage : Stage) (input : String) : Command.Outcome :=
  Command.runIn format (some input.toUTF8) (.select (stage.request none) stage.pretty)

end Stage

abbrev Pipeline := List Stage

namespace Pipeline

/-- The answers of the stages, each on what the one before it has printed. The pipeline ends with a stage that fails,
since this one prints no document. -/
def answers (format : Json.Format) : Pipeline → String → List (Except RequestError RequestAnswer)
  | [], _ => []
  | stage :: later, input =>
    match stage.answer format input with
    | .ok answer => .ok answer :: answers format later (stage.outcome format input).output
    | .error reason => [.error reason]

/-- The selections of the stages, each from the value that the one before it has selected. -/
def selections : Pipeline → Value → List (Except SelectionError Value)
  | [], _ => []
  | stage :: later, root =>
    match select stage.options stage.query root with
    | .ok value => .ok value :: selections later value
    | .error reason => [.error reason]

end Pipeline

/-! ### One stage -/

theorem fromUTF8?_toUTF8 (text : String) : String.fromUTF8? text.toUTF8 = some text := by
  rw [String.fromUTF8?, String.toUTF8_eq_toByteArray, dif_pos text.isValidUTF8]
  rfl

variable {format : Json.Format} {text : String} {json : Json} {value : Value}

namespace Stage

theorem outcome_eq (stage : Stage) (text : String) :
    stage.outcome format text = Command.answerIn format (stage.request (some text)) stage.pretty := by
  have hneeds : (stage.request none).needsInput = true := rfl
  simp only [outcome, Command.runIn, hneeds, fromUTF8?_toUTF8]
  rfl

theorem answer_eq (stage : Stage) (hread : format.read text = some json) :
    stage.answer format text =
      ((select stage.options stage.query (.ofJson json)).mapError RequestError.query).map
        fun value => .selected value.toJson :=
  (stage.request (some text)).applyIn_eq hread

/-- What a stage prints is read as the document that it has selected. -/
theorem read_output (hformat : format.IsFaithful) (stage : Stage) (hread : format.read text = some json)
    (hselect : select stage.options stage.query (.ofJson json) = .ok value) :
    format.read (stage.outcome format text).output = some value.toJson ∧ Document.ofJson value.toJson = value := by
  have hanswer : (stage.request (some text)).answerIn format = .ok (.selected value.toJson) := by
    refine (stage.answer_eq hread).trans ?_
    rw [hselect]
    rfl
  have hordered : value.toJson.IsOrdered :=
    (Query.isOrdered_of_select hselect (hformat.isOrdered hread).ofJson).toJson
  have hdepth : value.toJson.depth ≤ Json.maximalDepth := by
    calc value.toJson.depth = value.depth := Document.depth_toJson value
      _ ≤ max 1 (Document.ofJson json).depth := Query.depth_of_select hselect
      _ = max 1 json.depth := by rw [Document.depth_ofJson]
      _ ≤ Json.maximalDepth := Nat.max_le.2 ⟨by decide, hformat.depth_le hread⟩
  rw [outcome_eq, Command.answerIn, hanswer]
  exact ⟨hformat.read_print hordered hdepth stage.pretty,
    Document.ofJson_toJson (Query.isFinite_of_select hselect (Document.isFinite_ofJson json))⟩

end Stage

/-! ### All stages -/

namespace Pipeline

theorem answers_eq_map (hformat : format.IsFaithful) (hread : format.read text = some json) (pipeline : Pipeline) :
    pipeline.answers format text =
      (pipeline.selections (.ofJson json)).map fun selection =>
        (selection.mapError RequestError.query).map fun value => RequestAnswer.selected value.toJson := by
  induction pipeline generalizing text json with
  | nil => rfl
  | cons stage later ih =>
    rw [answers, selections, stage.answer_eq hread]
    cases hselect : select stage.options stage.query (.ofJson json) with
    | error reason => rfl
    | ok value =>
      obtain ⟨houtput, hvalue⟩ := stage.read_output hformat hread hselect
      have hlater := ih houtput
      rw [hvalue] at hlater
      exact congrArg _ hlater

/-- What holds of the first value and is kept by every selection holds of all values of the pipeline. -/
theorem forall_ok_mem_selections {P : Value → Prop}
    (hselect : ∀ {options text root value}, select options text root = .ok value → P root → P value)
    (pipeline : Pipeline) {root : Value} (hroot : P root) :
    ∀ value, .ok value ∈ pipeline.selections root → P value := by
  induction pipeline generalizing root with
  | nil => exact nofun
  | cons stage later ih =>
    intro value hvalue
    rw [selections] at hvalue
    cases hfirst : select stage.options stage.query root with
    | error reason => simp [hfirst] at hvalue
    | ok first =>
      rw [hfirst] at hvalue
      rcases List.mem_cons.1 hvalue with hsame | hlater
      · exact Except.ok.inj hsame ▸ hselect hfirst hroot
      · exact ih (hselect hfirst hroot) value hlater

/-- The answers of a pipeline are those of selections made one after the other in memory, from the value that the first
text holds. So a stage fails only where a selection does, and never for the text that it reads. -/
theorem answers_eq_selections (hformat : format.IsFaithful) (hread : format.read text = some json)
    (pipeline : Pipeline) :
    (pipeline.answers format text =
      (pipeline.selections (.ofJson json)).map fun selection =>
        (selection.mapError RequestError.query).map fun value => RequestAnswer.selected value.toJson) ∧
    (∀ answer ∈ pipeline.answers format text, answer ≠ .error .json) ∧
    (∀ value, value = .ofJson json ∨ .ok value ∈ pipeline.selections (.ofJson json) → value.IsFinite) ∧
    (∀ options query root value, select options query root = .ok value → value.depth ≤ max 1 root.depth) ∧
    (∀ json, (Document.ofJson json).depth = json.depth) ∧ ∀ value : Value, value.toJson.depth = value.depth := by
  have hanswers := answers_eq_map hformat hread pipeline
  refine ⟨hanswers, ?_, ?_, ?_, Document.depth_ofJson, Document.depth_toJson⟩
  · intro answer hanswer
    rw [hanswers] at hanswer
    obtain ⟨selection, _, rfl⟩ := List.mem_map.1 hanswer
    cases selection <;> nofun
  · rintro value (rfl | hvalue)
    · exact Document.isFinite_ofJson json
    · exact forall_ok_mem_selections Query.isFinite_of_select pipeline (Document.isFinite_ofJson json) value hvalue
  · exact fun options query root value hselect => Query.depth_of_select hselect

/-- The second stage follows a path through the object that the first one has printed. -/
theorem answers_eq_selections_user :
    let document : Json := .object [("user", .object [("id", .number (.natural 7))])]
    Json.ofString? (document.render ++ "\n") = some document ∧
      Pipeline.answers .standard [⟨"user=u", true, true, true⟩, ⟨"u.id=i", false, false, false⟩]
          (document.render ++ "\n") =
        [.ok (.selected (.object [("u", .object [("id", .number (.natural 7))])])),
          .ok (.selected (.object [("i", .number (.natural 7))]))] := by
  intro document
  have hordered : document.IsOrdered := by
    refine Document.isOrdered_object_iff.2 ⟨List.pairwise_singleton _ _, List.forall_mem_singleton.2 ?_⟩
    refine Document.isOrdered_object_iff.2 ⟨List.pairwise_singleton _ _, List.forall_mem_singleton.2 ?_⟩
    exact Document.isOrdered_of_depth_eq_zero rfl
  have hread : Json.ofString? (document.render ++ "\n") = some document := Json.ofString?_render hordered (by decide)
  have hfirst : Query.ofString "user=u" = .ok ⟨[⟨["user"], "u"⟩]⟩ := (Query.ofString_eq_ok_iff _ _).2 (by decide)
  have hsecond : Query.ofString "u.id=i" = .ok ⟨[⟨["u", "id"], "i"⟩]⟩ := (Query.ofString_eq_ok_iff _ _).2 (by decide)
  refine ⟨hread, (answers_eq_selections Json.Format.isFaithful_standard hread _).1.trans ?_⟩
  simp only [selections, Query.select_of_ofString hfirst, Query.select_of_ofString hsecond]
  rfl

end Pipeline

end Pluck
