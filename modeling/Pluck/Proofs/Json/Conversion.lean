import Pluck.Document.Value
import Pluck.Json.Basic
import Pluck.Proofs.Binary64.Rounding
import Pluck.Proofs.Document.Trees

/-!
# Values and JSON documents

`Document.toJson` and `Document.ofJson` change the numbers of a document and nothing else: the depth stays the same, and
an ordered document stays ordered. A value that comes from a JSON document is finite (`isFinite_ofJson`), and a finite
number is itself again after it has been a JSON number (`Number.toNumber_toJson?`).
-/

namespace Pluck

/-- The number is not one of those that JSON has no text for. -/
def Number.IsFinite : Number → Prop
  | integer _ => True
  | float value => value.isFinite

namespace Document

/-- All numbers in the value are finite. -/
def IsFinite (value : Value) : Prop :=
  ∀ number, value.Contains (.number number) → number.IsFinite

theorem IsFinite.of_contains {value part : Value} (hvalue : value.IsFinite) (hpart : value.Contains part) :
    part.IsFinite :=
  fun number hnumber => hvalue number (hpart.trans hnumber)

theorem depth_toJson (value : Value) : value.toJson.depth = value.depth :=
  depth_mapNumber value

theorem depth_ofJson (json : Json) : (ofJson json).depth = json.depth :=
  depth_mapNumber json

theorem IsOrdered.toJson {value : Value} (hvalue : value.IsOrdered) : value.toJson.IsOrdered :=
  hvalue.mapNumber

theorem IsOrdered.ofJson {json : Json} (hjson : json.IsOrdered) : (Document.ofJson json).IsOrdered :=
  hjson.mapNumber

end Document

theorem Json.Number.isFinite_toNumber (number : Json.Number) : number.toNumber.IsFinite := by
  cases number with
  | natural value =>
    rw [toNumber]
    split
    · trivial
    · exact Binary64.isFinite_ofUInt64 value
  | negative value _ => trivial
  | float value hfinite => exact hfinite

theorem Number.toNumber_toJson? {number : Number} (hnumber : number.IsFinite) :
    number.toJson?.map Json.Number.toNumber = some number := by
  cases number with
  | integer value =>
    rw [toJson?, Option.map_some, Option.some.injEq]
    split
    · rfl
    next hnegative =>
      have hnat : value.toUInt64.toNat < Nat.pow 2 63 := by
        rw [Int64.toNat_toUInt64_of_le (Int64.not_lt.1 hnegative)]
        exact value.toNatClampNeg_lt
      rw [Json.Number.toNumber, if_pos hnat]
      exact congrArg integer (Int64.toInt64_toUInt64 value)
  | float value =>
    have hfinite : value.isFinite := hnumber
    rw [toJson?, dif_pos hfinite]
    rfl

namespace Document

theorem isFinite_ofJson (json : Json) : (ofJson json).IsFinite := by
  intro number hnumber
  obtain ⟨old, _, hold⟩ := exists_of_contains_number_mapNumber hnumber
  rw [← Option.some.inj hold]
  exact old.isFinite_toNumber

end Document

end Pluck
