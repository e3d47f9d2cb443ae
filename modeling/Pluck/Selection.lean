import Pluck.Query.Evaluation
import Pluck.Query.Reader

/-!
# Selecting from a document

The text of a query, applied to a document, gives the object of the selected values. An empty text selects the whole
document.
-/

namespace Pluck

/-- Why a text selects nothing from a document. -/
inductive SelectionError
  | parse (reason : ParseError)
  | evaluation (reason : EvaluationError)
  deriving Repr, DecidableEq

def SelectionError.message : SelectionError → String
  | parse reason => "Parse error: " ++ reason.message
  | evaluation reason => "Evaluation error: " ++ reason.message

def select (options : Options) (text : String) (root : Value) : Except SelectionError Value :=
  if text.isEmpty then .ok root
  else
    match Query.ofString text with
    | .error reason => .error (.parse reason)
    | .ok query =>
      match query.evaluate options root with
      | .error reason => .error (.evaluation reason)
      | .ok fields => .ok (.object fields)

end Pluck
