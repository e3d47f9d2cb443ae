import Pluck.Document.Fields

/-!
# Documents

A `Document` is a tree of arrays and objects over plain data. What its numbers are is left open, so that the values that
queries work on and the texts that are exchanged share one type of tree.
-/

namespace Pluck

inductive Document (ν : Type) where
  | null
  | boolean (value : Bool)
  | number (value : ν)
  | string (text : String)
  | array (items : List (Document ν))
  | object (fields : List (String × Document ν))
  deriving Repr, Inhabited

namespace Document

variable {ν μ : Type}

/-- The object with the given entries, of which a later one replaces an earlier one of the same name. -/
def ofEntries (entries : List (String × Document ν)) : Document ν :=
  .object (Fields.ofList entries)

def isNull : Document ν → Bool
  | null => true
  | _ => false

/-! ### Equality -/

mutual

/-- Equality of documents, given the equality of their numbers. -/
def equal (same : ν → ν → Bool) : Document ν → Document ν → Bool
  | null, null => true
  | boolean a, boolean b => a == b
  | number a, number b => same a b
  | string a, string b => a == b
  | array a, array b => equalItems same a b
  | object a, object b => equalFields same a b
  | _, _ => false

def equalItems (same : ν → ν → Bool) : List (Document ν) → List (Document ν) → Bool
  | [], [] => true
  | a :: as, b :: bs => equal same a b && equalItems same as bs
  | _, _ => false

def equalFields (same : ν → ν → Bool) : Fields (Document ν) → Fields (Document ν) → Bool
  | [], [] => true
  | (name, a) :: as, (other, b) :: bs => name == other && equal same a b && equalFields same as bs
  | _, _ => false

end

/-! ### Other numbers -/

mutual

/-- The document with its numbers changed. A number without a counterpart becomes null. -/
def mapNumber (f : ν → Option μ) : Document ν → Document μ
  | null => null
  | boolean value => boolean value
  | number value => (f value).elim null number
  | string text => string text
  | array items => array (mapItems f items)
  | object fields => object (mapFields f fields)

def mapItems (f : ν → Option μ) : List (Document ν) → List (Document μ)
  | [] => []
  | item :: rest => mapNumber f item :: mapItems f rest

def mapFields (f : ν → Option μ) : Fields (Document ν) → Fields (Document μ)
  | [] => []
  | (name, value) :: rest => (name, mapNumber f value) :: mapFields f rest

end

end Document

end Pluck
