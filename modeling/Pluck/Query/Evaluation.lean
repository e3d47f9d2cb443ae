import Pluck.Document.Value
import Pluck.Query.Basic

/-!
# Evaluating queries

Every clause starts at the root of the document. The values that the clauses find are collected in an object, under the
clauses' keys. A clause whose path leads nowhere adds nothing. The options say what becomes of a path that goes on at a
value without fields, and of a key that an earlier clause has used.
-/

namespace Pluck

/-- What becomes of a clause whose path goes on at a value without fields. -/
inductive OnMismatch
  /-- It adds nothing, as if a field were missing. -/
  | skip
  | fail
  deriving Repr, DecidableEq

/-- What becomes of a clause whose key an earlier clause has used. -/
inductive OnDuplicate
  | overwrite
  | fail
  deriving Repr, DecidableEq

structure Options where
  onMismatch : OnMismatch
  onDuplicate : OnDuplicate
  deriving Repr, DecidableEq

namespace Options

def lenient : Options := ⟨.skip, .overwrite⟩

def strict : Options := ⟨.fail, .fail⟩

end Options

/-- Why a query cannot be evaluated. -/
inductive EvaluationError
  /-- The path goes on with `name` at a value without fields. -/
  | mismatch (path : String) (name : String) (kind : Kind)
  | duplicate (key : String)
  deriving Repr, DecidableEq

def EvaluationError.message : EvaluationError → String
  | mismatch path name kind =>
    "Cannot look up '" ++ name ++ "' in " ++ kind.label ++ " while resolving '" ++ path ++ "'"
  | duplicate key => "Duplicate alias '" ++ key ++ "'"

namespace Clause

/-- The value at the end of the clause's path, if there is one. -/
def resolve (options : Options) (root : Value) (clause : Clause) : Except EvaluationError (Option Value) :=
  match root.follow clause.path with
  | .found value => .ok (some value)
  | .missing => .ok none
  | .mismatch name kind =>
    match options.onMismatch with
    | .skip => .ok none
    | .fail => .error (.mismatch clause.pathText name kind)

/-- What the clause adds after clauses with the keys `used`. -/
def outcome (options : Options) (root : Value) (used : List String) (clause : Clause) :
    Except EvaluationError (Option Value) :=
  if options.onDuplicate = .fail ∧ clause.key ∈ used then .error (.duplicate clause.key)
  else clause.resolve options root

end Clause

/-- The course of an evaluation: what each clause has added, up to the first one that cannot be evaluated. -/
structure Course where
  steps : List (Clause × Option Value)
  error : Option EvaluationError
  deriving Repr

namespace Course

/-- Goes through clauses after others with the keys `used`. -/
def ofClauses (options : Options) (root : Value) (used : List String) : List Clause → Course
  | [] => ⟨[], none⟩
  | clause :: rest =>
    match clause.outcome options root used with
    | .error reason => ⟨[], some reason⟩
    | .ok value =>
      let later := ofClauses options root (clause.key :: used) rest
      ⟨(clause, value) :: later.steps, later.error⟩

/-- The values that were found, under the keys of their clauses. -/
def entries (course : Course) : List (String × Value) :=
  course.steps.filterMap fun (clause, value) => value.map (clause.key, ·)

def result (course : Course) : Except EvaluationError (Fields Value) :=
  match course.error with
  | some reason => .error reason
  | none => .ok (Fields.ofList course.entries)

end Course

namespace Query

def course (options : Options) (root : Value) (query : Query) : Course :=
  .ofClauses options root [] query.clauses

/-- The fields that the clauses select from a document. -/
def evaluate (options : Options) (root : Value) (query : Query) : Except EvaluationError (Fields Value) :=
  (query.course options root).result

end Query

end Pluck
