import Pluck.Proofs.Binary64.Nearest
import Pluck.Proofs.Document.Numbers
import Pluck.Proofs.Json.Conversion

/-!
# There and back

What a document has become when it has been converted and converted back. A value loses its numbers that are not finite,
and nothing else (`ofJson_toJson_replaces`). A JSON document keeps everything but the integers that are too large for a
value: each of them is rounded (`toJson_ofJson_eq`), to the nearest floating-point number.
-/

namespace Pluck

/-! ### Values -/

theorem Binary64.equal_self_of_isFinite {x : Binary64} (hfinite : x.isFinite) : x.equal x := by
  have hlt : x.code < infinityCode := by simpa [isFinite] using hfinite
  have hnumber : x.isNaN = false := by simpa [isNaN] using Nat.le_of_lt hlt
  simp [equal, hnumber]

namespace Number

variable {number : Number}

/-- The number as a document, or null in its place if JSON has no text for it. -/
def orNull : Number → Value
  | integer value => .number (.integer value)
  | float value => if value.isFinite then .number (.float value) else .null

theorem orNull_of_isFinite (hfinite : number.IsFinite) : number.orNull = .number number := by
  cases number with
  | integer value => rfl
  | float value => exact if_pos hfinite

theorem orNull_of_not_isFinite (hfinite : ¬number.IsFinite) : number.orNull = .null := by
  cases number with
  | integer value => exact absurd trivial hfinite
  | float value => exact if_neg hfinite

theorem toJson?_of_not_isFinite (hfinite : ¬number.IsFinite) : number.toJson? = none := by
  cases number with
  | integer value => exact absurd trivial hfinite
  | float value => exact dif_neg hfinite

theorem equal_self_of_isFinite (hfinite : number.IsFinite) : number.equal number := by
  cases number with
  | integer value => exact beq_self_eq_true value
  | float value => exact Binary64.equal_self_of_isFinite hfinite

theorem orNull_eq_self_iff (number : Number) : number.orNull = .number number ↔ number.IsFinite := by
  by_cases hfinite : number.IsFinite
  · rw [orNull_of_isFinite hfinite, eq_self, true_iff]
    exact hfinite
  · rw [orNull_of_not_isFinite hfinite, iff_false_right hfinite]
    rintro ⟨⟩

theorem equal_orNull_iff (number : Number) :
    Document.equal equal number.orNull (.number number) ↔ number.IsFinite := by
  by_cases hfinite : number.IsFinite
  · rw [orNull_of_isFinite hfinite, Document.equal, equal_self_of_isFinite hfinite, eq_self, true_iff]
    exact hfinite
  · rw [orNull_of_not_isFinite hfinite, iff_false_right hfinite]
    exact Bool.false_ne_true

theorem replaceNumbers_toJson? (number : Number) :
    (number.toJson?.elim Document.null Document.number).replaceNumbers (fun number => .number number.toNumber) =
      number.orNull := by
  by_cases hfinite : number.IsFinite
  · obtain ⟨json, hjson, hback⟩ := Option.map_eq_some_iff.1 (toNumber_toJson? hfinite)
    rw [hjson, Option.elim_some, Document.replaceNumbers, hback, orNull_of_isFinite hfinite]
  · rw [toJson?_of_not_isFinite hfinite, Option.elim_none, Document.replaceNumbers, orNull_of_not_isFinite hfinite]

end Number

namespace Document

theorem ofJson_toJson_eq (value : Value) : ofJson value.toJson = value.replaceNumbers Number.orNull := by
  rw [toJson, ofJson, mapNumber_eq_replaceNumbers, mapNumber_eq_replaceNumbers, replaceNumbers_replaceNumbers]
  exact congrArg value.replaceNumbers (funext Number.replaceNumbers_toJson?)

theorem ofJson_toJson {value : Value} (hfinite : value.IsFinite) : ofJson value.toJson = value := by
  rw [ofJson_toJson_eq, replaceNumbers_eq_self_iff]
  exact fun number hnumber => Number.orNull_of_isFinite (hfinite number hnumber)

/-- A value comes back with null for each number that is not finite, and the same otherwise. So it is itself again, word
by word or as a number equals a number, exactly if all its numbers are finite. Nothing is lost a second time. -/
theorem ofJson_toJson_replaces (value : Value) :
    ofJson value.toJson = value.replaceNumbers Number.orNull ∧
    (ofJson value.toJson = value ↔ value.IsFinite) ∧
    (equal Number.equal (ofJson value.toJson) value ↔ value.IsFinite) ∧
    ofJson (ofJson value.toJson).toJson = ofJson value.toJson := by
  refine ⟨ofJson_toJson_eq value, ?_, ?_, ofJson_toJson (isFinite_ofJson value.toJson)⟩
  · rw [ofJson_toJson_eq, replaceNumbers_eq_self_iff]
    exact forall₂_congr fun number _ => number.orNull_eq_self_iff
  · rw [ofJson_toJson_eq, equal_replaceNumbers_iff]
    exact forall₂_congr fun number _ => number.equal_orNull_iff

end Document

/-! ### JSON documents -/

namespace Json.Number

/-- The number, or the nearest floating-point one in the place of an integer that is too large for a value. -/
def rounded : Json.Number → Json.Number
  | natural value =>
    if value.toNat < Nat.pow 2 63 then natural value
    else float (.ofUInt64 value) (Binary64.isFinite_ofUInt64 value)
  | negative value hnegative => negative value hnegative
  | float value hfinite => float value hfinite

theorem not_toInt64_lt_zero {value : UInt64} (hsmall : value.toNat < 2 ^ 63) : ¬value.toInt64 < 0 := by
  have hint : value.toInt64.toInt = value.toNat :=
    BitVec.toInt_eq_toNat_of_lt (x := value.toBitVec) (by rw [UInt64.toNat_toBitVec]; omega)
  rw [Int64.lt_iff_toInt_lt, hint, Int64.toInt_zero]
  omega

theorem toJson?_toNumber (number : Json.Number) : number.toNumber.toJson? = some number.rounded := by
  cases number with
  | natural value =>
    rw [toNumber, rounded]
    split
    next hsmall => rw [Number.toJson?, dif_neg (not_toInt64_lt_zero hsmall), UInt64.toUInt64_toInt64]
    next => rw [Number.toJson?, dif_pos (Binary64.isFinite_ofUInt64 value)]
  | negative value hnegative => exact congrArg some (dif_pos hnegative)
  | float value hfinite => exact dif_pos hfinite

theorem rounded_eq_self_iff (number : Json.Number) :
    number.rounded = number ↔ ∀ value, number = natural value → value.toNat < 2 ^ 63 := by
  cases number with
  | natural value =>
    rw [rounded]
    split
    next hsmall => exact ⟨fun _ other hother => natural.inj hother ▸ hsmall, fun _ => rfl⟩
    next hlarge => exact ⟨Number.noConfusion, fun hsmall => absurd (hsmall value rfl) hlarge⟩
  | negative value hnegative => exact ⟨fun _ _ hother => Number.noConfusion hother, fun _ => rfl⟩
  | float value hfinite => exact ⟨fun _ _ hother => Number.noConfusion hother, fun _ => rfl⟩

end Json.Number

namespace Document

theorem toJson_ofJson_eq (json : Json) :
    (ofJson json).toJson = json.replaceNumbers fun number => .number number.rounded := by
  rw [toJson, ofJson, mapNumber_eq_replaceNumbers, mapNumber_eq_replaceNumbers, replaceNumbers_replaceNumbers]
  refine congrArg json.replaceNumbers (funext fun number => ?_)
  rw [Option.elim_some, replaceNumbers, Json.Number.toJson?_toNumber, Option.elim_some]

theorem toJson_ofJson_eq_self_iff (json : Json) :
    (ofJson json).toJson = json ↔ ∀ value, json.Contains (.number (.natural value)) → value.toNat < 2 ^ 63 := by
  rw [toJson_ofJson_eq, replaceNumbers_eq_self_iff]
  simp only [number.injEq, Json.Number.rounded_eq_self_iff]
  constructor
  · exact fun hall value hvalue => hall _ hvalue value rfl
  · rintro hall _ hnumber value rfl
    exact hall value hnumber

end Document

end Pluck
