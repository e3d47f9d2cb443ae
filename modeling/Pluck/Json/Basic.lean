import Pluck.Document.Value

/-!
# JSON documents

The numbers of a `Json` document are what a JSON text can write and keep: integers of 64 bits, with or without a sign,
and finite floating-point numbers. `Document.toJson` and `Document.ofJson` convert between these documents and values.
On the way out, a number that is not finite becomes null; on the way in, an integer too large for a value becomes the
nearest floating-point number.
-/

namespace Pluck

namespace Json

inductive Number where
  | natural (value : UInt64)
  | negative (value : Int64) (isNegative : value < 0)
  | float (value : Binary64) (isFinite : value.isFinite)
  deriving Repr, DecidableEq

end Json

abbrev Json := Document Json.Number

def Number.toJson? : Number → Option Json.Number
  | integer value => some (if h : value < 0 then .negative value h else .natural value.toUInt64)
  | float value => if h : value.isFinite then some (.float value h) else none

def Json.Number.toNumber : Json.Number → Pluck.Number
  | natural value => if value.toNat < Nat.pow 2 63 then .integer value.toInt64 else .float (.ofUInt64 value)
  | negative value _ => .integer value
  | float value _ => .float value

namespace Document

/-- The document of a value. The fields of an object are collected in increasing order of their names, which leaves the
fields of a value where they are, because they stand in this order already (`arranged_toJson`). -/
def toJson (value : Value) : Json :=
  value.mapNumber Number.toJson?

def ofJson (json : Json) : Value :=
  json.mapNumber fun number => some number.toNumber

end Document

end Pluck
