import Pluck.Selection

/-!
# The log of a selection

`selectionLog` lists what happens during a selection: the tokens of the query as they are read, the query once it has
been read as a whole, and then what each clause has found. Reading stops at the token that does not fit. A clause that
cannot be evaluated ends the log without an entry of its own.
-/

namespace Pluck

inductive Level
  | trace
  | debug
  deriving Repr, DecidableEq

def Level.label : Level → String
  | trace => "TRACE"
  | debug => "DEBUG"

inductive Event
  /-- A token of the skipped kind was passed over. -/
  | skipped (blanks : Token)
  | token (part : Token)
  /-- The text was read as a query of so many clauses. -/
  | parsed (text : String) (clauses : Nat)
  | resolved (clause : Clause) (kind : Kind)
  | unresolved (clause : Clause)
  deriving Repr, DecidableEq

namespace Event

def level : Event → Level
  | skipped _ | token _ => .trace
  | parsed .. | resolved .. | unresolved _ => .debug

def message : Event → String
  | skipped blanks =>
    "skipped " ++ toString blanks.text.utf8ByteSize ++ " bytes at " ++ toString blanks.position
  | token part =>
    "token " ++ part.kind.label ++ " " ++ Text.quoted part.text ++ " at " ++ toString part.position
  | parsed text clauses => "query " ++ Text.quoted text ++ " parsed into " ++ toString clauses ++ " specs"
  | resolved clause kind => clause.render ++ " resolved to " ++ kind.label
  | unresolved clause => clause.render ++ " did not resolve, skipped"

def ofToken (lexicon : Lexicon) (token : Token) : Event :=
  if token.kind = lexicon.skipped then .skipped token else .token token

def ofStep : Clause × Option Value → Event
  | (clause, some value) => .resolved clause value.kind
  | (clause, none) => .unresolved clause

end Event

/-- The tokens that were read before a query was refused. -/
def Query.Failure.tokensRead (failure : Query.Failure) (reading : Reading) : List Token :=
  match failure.noticed with
  | none => reading.found
  | some place => reading.found.takeWhile (·.stop ≤ place)

/-- What happens when the text of a query is applied to a document, in order. -/
def selectionLog (options : Options) (text : String) (root : Value) : List Event :=
  if text.isEmpty then []
  else
    let reading := Query.read text
    match Query.ofReading Query.lexicon reading with
    | .error failure => (failure.tokensRead reading).map (.ofToken Query.lexicon)
    | .ok query =>
      reading.found.map (.ofToken Query.lexicon) ++ .parsed text query.clauses.length ::
        (query.course options root).steps.map .ofStep

end Pluck
