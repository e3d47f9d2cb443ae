import Pluck.Proofs.Json.Returning
import Pluck.Proofs.Request.Checking

/-!
# The whole document

A request with an empty query answers with its document as it is after it has become a value (`answer_of_empty`). That
is the document itself as far as its numbers fit into values, and `answer_echoes` says how far they do.
-/

namespace Pluck.Request

theorem answer_of_empty {text : String} {json : Json} (hread : Json.ofString? text = some json)
    (strictPaths rejectDuplicates : Bool) :
    (Request.mk "" (some text) false strictPaths rejectDuplicates).answer =
      .ok (.selected (Document.ofJson json).toJson) :=
  (@applyIn_eq _ _ (Request.mk "" (some text) false strictPaths rejectDuplicates) .standard hread).trans rfl

/-- An empty query gives the document back with the integers from `2 ^ 63` on rounded to the nearest floating-point
numbers, and everything else unchanged. So it gives back the document itself exactly if it has no such integer. -/
theorem answer_echoes (json : Json) :
    (Document.ofJson json).toJson = json.replaceNumbers (fun number => .number number.rounded) ∧
    (∀ number : Json.Number, number.rounded = number ↔ ∀ value, number = .natural value → value.toNat < 2 ^ 63) ∧
    (∀ value : UInt64, 2 ^ 63 ≤ value.toNat →
      ∃ x hfinite, (Json.Number.natural value).rounded = .float x hfinite ∧ x.IsNearest value.toNat) ∧
    ((Document.ofJson json).toJson = json ↔
      ∀ value, json.Contains (.number (.natural value)) → value.toNat < 2 ^ 63) ∧
    ∀ text, Json.ofString? text = some json → ∀ strictPaths rejectDuplicates,
      (Request.mk "" (some text) false strictPaths rejectDuplicates).answer =
        .ok (.selected (Document.ofJson json).toJson) ∧
      ((Request.mk "" (some text) false strictPaths rejectDuplicates).answer = .ok (.selected json) ↔
        ∀ value, json.Contains (.number (.natural value)) → value.toNat < 2 ^ 63) := by
  have hself := Document.toJson_ofJson_eq_self_iff json
  refine ⟨Document.toJson_ofJson_eq json, Json.Number.rounded_eq_self_iff, ?_, hself, ?_⟩
  · intro value hlarge
    exact ⟨_, _, if_neg (Nat.not_lt.2 hlarge), Binary64.isNearest_ofUInt64 value⟩
  · intro text hread strictPaths rejectDuplicates
    have hanswer := answer_of_empty hread strictPaths rejectDuplicates
    refine ⟨hanswer, ?_⟩
    rw [← hself, hanswer, Except.ok.injEq, RequestAnswer.selected.injEq]

/-- The greatest integer of a value comes back, and the next one as a floating-point number. -/
theorem answer_echoes_limit :
    let document : Json := .array [.number (.natural 9223372036854775807), .number (.natural 9223372036854775808)]
    Json.ofString? (document.render ++ "\n") = some document ∧
      2 ^ 63 ≤ (9223372036854775808 : UInt64).toNat ∧
      (Request.mk "" (some (document.render ++ "\n")) false true true).answer ≠ .ok (.selected document) ∧
      (Request.mk "" (some (document.render ++ "\n")) false true true).answer =
        .ok (.selected (.array [.number (.natural 9223372036854775807),
          .number (.float ⟨0x43e0000000000000⟩ (by decide))])) := by
  intro document
  have hordered : document.IsOrdered := by
    rw [Document.isOrdered_array_iff, List.forall_mem_cons, List.forall_mem_singleton]
    exact ⟨Document.isOrdered_of_depth_eq_zero rfl, Document.isOrdered_of_depth_eq_zero rfl⟩
  have hread : Json.ofString? (document.render ++ "\n") = some document := Json.ofString?_render hordered (by decide)
  have hlarge : 2 ^ 63 ≤ (9223372036854775808 : UInt64).toNat := by decide
  obtain ⟨hreplace, _, _, _, hanswer⟩ := answer_echoes document
  obtain ⟨hreplaced, hecho⟩ := hanswer _ hread true true
  refine ⟨hread, hlarge, fun hsame => ?_, ?_⟩
  · exact absurd (hecho.1 hsame 9223372036854775808 (.item (by simp) (.self _))) (Nat.not_lt.2 hlarge)
  · have hsmall : (Json.Number.natural 9223372036854775807).rounded = .natural 9223372036854775807 := by decide
    have hnext : (Json.Number.natural 9223372036854775808).rounded = .float ⟨0x43e0000000000000⟩ (by decide) := by
      decide +kernel
    rw [hreplaced, hreplace, Document.replaceNumbers]
    simp only [List.map_cons, List.map_nil, Document.replaceNumbers, hsmall, hnext]

end Pluck.Request
