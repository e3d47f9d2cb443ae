/-!
# Where a run of characters ends

The longest beginning of a list with a property ends before the first element without it. So it does not depend on a
list that is appended, unless this list goes on with such an element.
-/

namespace Pluck.Text

variable {α : Type} {p : α → Bool} {text after : List α}

theorem takeWhile_append_of_head?_eq (hafter : ∀ a ∈ after.head?, p a = false) :
    (text ++ after).takeWhile p = text.takeWhile p := by
  induction text with
  | nil => cases after <;> simp_all
  | cons a text ih => rw [List.cons_append, List.takeWhile_cons, List.takeWhile_cons, ih]

theorem dropWhile_append_of_head?_eq (hafter : ∀ a ∈ after.head?, p a = false) :
    (text ++ after).dropWhile p = text.dropWhile p ++ after := by
  induction text with
  | nil => cases after <;> simp_all
  | cons a text ih =>
    rw [List.cons_append, List.dropWhile_cons, List.dropWhile_cons, ih]
    split <;> rfl

theorem head?_dropWhile_eq_false (p : α → Bool) (text : List α) : ∀ a ∈ (text.dropWhile p).head?, p a = false := by
  intro a ha
  have hnot := List.head?_dropWhile_not p text
  rw [Option.mem_def.1 ha] at hnot
  exact hnot

end Pluck.Text
