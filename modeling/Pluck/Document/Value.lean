import Pluck.Binary64.Rounding
import Pluck.Document.Basic

/-!
# Values

A `Value` is a document whose numbers are integers of 64 bits or floating-point numbers. A path of names leads from a
value to one inside it, through objects only: `Document.follow` says where it arrives.
-/

namespace Pluck

inductive Number where
  | integer (value : Int64)
  | float (value : Binary64)
  deriving Repr, DecidableEq

/-- Numbers of different form are different, whatever their magnitude. -/
def Number.equal : Number → Number → Bool
  | integer a, integer b => a == b
  | float a, float b => a.equal b
  | _, _ => false

abbrev Value := Document Number

inductive Kind where
  | null
  | boolean
  | integer
  | float
  | string
  | array
  | object
  deriving Repr, DecidableEq

def Kind.label : Kind → String
  | null => "null"
  | boolean => "boolean"
  | integer => "integer"
  | float => "float"
  | string => "string"
  | array => "array"
  | object => "object"

/-- Where a path of names arrives. -/
inductive Arrival where
  | found (value : Value)
  /-- A name leads nowhere: the value before it is null, or an object without a field of that name. -/
  | missing
  /-- The value before a name has no fields, being of the given kind. -/
  | mismatch (name : String) (kind : Kind)
  deriving Repr

namespace Document

def kind : Value → Kind
  | null => .null
  | boolean _ => .boolean
  | number (.integer _) => .integer
  | number (.float _) => .float
  | string _ => .string
  | array _ => .array
  | object _ => .object

/-- One step of a path. -/
def lookup (value : Value) (name : String) : Arrival :=
  match value with
  | object fields => (fields.lookup name).elim .missing .found
  | null => .missing
  | other => .mismatch name other.kind

def get? (value : Value) (name : String) : Option Value :=
  match value.lookup name with
  | .found field => some field
  | .missing | .mismatch .. => none

/-- The whole path, name by name. A path without names arrives where it starts. -/
def follow (value : Value) : List String → Arrival
  | [] => .found value
  | name :: rest =>
    match value.lookup name with
    | .found field => follow field rest
    | .missing => .missing
    | .mismatch name kind => .mismatch name kind

end Document

end Pluck
