import Pluck.Json.Printer
import Pluck.Json.Reader
import Pluck.Selection

/-!
# Requests on JSON text

A `Request` applies a query to a JSON text, or only checks how the query is written. Checking needs no document and says
the same about a query as applying it does. How texts are read and printed is a parameter of the definitions that end in
`In`; those without the ending take the standard format.
-/

namespace Pluck

/-- How JSON documents are read from texts, and printed on several lines or on one. -/
structure Json.Format where
  read : String → Option Json
  print : Bool → Json → String

def Json.Format.standard : Json.Format where
  read := ofString?
  print pretty json := if pretty then json.renderIndented else json.render

structure Request where
  query : String
  input : Option String
  checkOnly : Bool
  strictPaths : Bool
  rejectDuplicates : Bool
  deriving Repr, DecidableEq

/-- Why a request has no answer. -/
inductive RequestError
  | query (reason : SelectionError)
  | json
  | noInput
  deriving Repr, DecidableEq

/-- The message, which does not say what is wrong with a text that is not JSON. -/
def RequestError.message : RequestError → String
  | query reason => reason.message
  | json => "Invalid JSON: "
  | noInput => "No input provided. Use --input or pipe JSON to stdin."

inductive RequestAnswer
  /-- The query is written as it should be. -/
  | valid
  | selected (document : Json)
  deriving Repr

namespace Request

/-- The request has to be given a document before it can be answered. -/
def needsInput (request : Request) : Bool :=
  !request.checkOnly && request.input.isNone

def options (request : Request) : Options where
  onMismatch := if request.strictPaths then .fail else .skip
  onDuplicate := if request.rejectDuplicates then .fail else .overwrite

/-- Checks the query without a document. The empty text, which selects everything, is well written. -/
def check (request : Request) : Except RequestError RequestAnswer :=
  if request.query.isEmpty then .ok .valid
  else
    match Query.ofString request.query with
    | .ok _ => .ok .valid
    | .error reason => .error (.query (.parse reason))

/-- Applies the query to the document that a text holds. -/
def applyIn (format : Json.Format) (request : Request) (input : String) : Except RequestError RequestAnswer :=
  match format.read input with
  | none => .error .json
  | some json =>
    match select request.options request.query (.ofJson json) with
    | .ok value => .ok (.selected value.toJson)
    | .error reason => .error (.query reason)

def answerIn (format : Json.Format) (request : Request) : Except RequestError RequestAnswer :=
  if request.checkOnly then request.check
  else
    match request.input with
    | none => .error .noInput
    | some input => request.applyIn format input

def answer (request : Request) : Except RequestError RequestAnswer :=
  request.answerIn .standard

end Request

end Pluck
