import Pluck.Proofs.Pattern.Reading

/-!
# Texts that are written into a group

What becomes of a text between an anchor with an open group and a parenthesis. If the text is a pattern, the whole is
this pattern in a group behind the anchor (`read_group`), unless the text ends in a comment: then the parenthesis
belongs to the comment, and the group is never closed (`read_group_of_endsInComment`). If the text is no pattern, one of
its own parentheses may still end the group; the rest is then read behind the anchor (`map_read_group`). Otherwise the
whole is no pattern either (`read_group_of_malformed`).
-/

namespace Pluck.Pattern

open Progress (initial)

variable {text before rest : String} {pattern : Pattern} {refusal : Refusal}

theorem read_eq_ok_iff :
    read text = .ok pattern ↔ ∃ after, initial.run text.toList = .ok after ∧ after.finish = .ok pattern := by
  rw [read]
  cases initial.run text.toList with
  | error refusal => simp [Except.bind]
  | ok after => simp [Except.bind]

theorem endsInComment_eq {after : Progress} (hrun : initial.run text.toList = .ok after) :
    endsInComment text = after.inComment := by
  rw [endsInComment, hrun]

/-! ### The group -/

/-- The beginning of a branch with an anchor. -/
def anchor : Draft :=
  (Draft.opened none).add (some .start)

theorem run_anchor (text : List Char) :
    initial.run ('^' :: text) = Progress.run { initial with draft := anchor } text := rfl

theorem run_group (text : List Char) :
    initial.run ('^' :: '(' :: '?' :: ':' :: text) = (initial.within (anchor, false)).run text := rfl

theorem toList_group (text : String) :
    ("^(?:" ++ text ++ ")").toList = '^' :: '(' :: '?' :: ':' :: (text.toList ++ [')']) := by
  simp [String.toList_append]

theorem toList_anchor (text : String) : ("^" ++ text ++ ")").toList = '^' :: (text.toList ++ [')']) := by
  simp [String.toList_append]

theorem read_group_eq (text : String) :
    read ("^(?:" ++ text ++ ")") =
      ((initial.within (anchor, false)).run (text.toList ++ [')'])).bind Progress.finish := by
  rw [read, toList_group, run_group]

/-! ### Patterns -/

/-- A pattern in a group behind an anchor is the sequence of both. -/
theorem read_group (hread : read text = .ok pattern) (hends : endsInComment text = false) :
    read ("^(?:" ++ text ++ ")") = .ok (concat [.start, pattern]) := by
  obtain ⟨after, hrun, hfinish⟩ := read_eq_ok_iff.1 hread
  have hcomment : after.inComment = false := endsInComment_eq hrun ▸ hends
  rw [read_group_eq, Progress.run_append, Progress.run_within hrun, Except.bind,
    Progress.run_of_step (Progress.step_closing hcomment hfinish (anchor, false)).2]
  rfl

theorem finish_within {progress : Progress} (outer : Draft × Bool) (hmode : ∀ text, progress.mode ≠ .flags text) :
    (progress.within outer).finish = .error .malformed := by
  obtain ⟨verbose, inComment, mode, count, draft, around⟩ := progress
  cases mode with
  | flags text => exact absurd rfl (hmode text)
  | _ => cases around <;> rfl

theorem mode_of_finish_ne {progress : Progress} (hfinish : progress.finish ≠ .error .outside) (text : List Char) :
    progress.mode ≠ .flags text := by
  intro hmode
  refine hfinish ?_
  simp only [Progress.finish, hmode]

/-- A pattern that ends in a comment takes the parenthesis after it into the comment. -/
theorem read_group_of_endsInComment (hread : read text = .ok pattern) (hends : endsInComment text = true) :
    read ("^(?:" ++ text ++ ")") = .error .malformed := by
  obtain ⟨after, hrun, hfinish⟩ := read_eq_ok_iff.1 hread
  have hcomment : after.inComment = true := endsInComment_eq hrun ▸ hends
  have hstep : (after.within (anchor, false)).step ')' = .ok (after.within (anchor, false)) := by
    obtain ⟨verbose, inComment, mode, count, draft, around⟩ := after
    cases hcomment
    rfl
  rw [read_group_eq, Progress.run_append, Progress.run_within hrun, Except.bind, Progress.run_of_step hstep]
  exact finish_within _ (mode_of_finish_ne (by simp [hfinish]))

/-! ### Texts that are no patterns -/

/-- One of the closing parentheses of a text ends a group that the text is written into. What is before it is a pattern
that does not end in a comment. -/
structure EndsGroup (text before rest : String) : Prop where
  text_eq : text = before ++ ")" ++ rest
  exists_read : ∃ pattern, read before = .ok pattern
  endsInComment_eq : endsInComment before = false

/-- What follows the end of the group is read as it is behind an anchor. -/
theorem map_read_group (hends : EndsGroup text before rest) :
    (read ("^(?:" ++ text ++ ")")).map (fun _ => ()) = (read ("^" ++ rest ++ ")")).map fun _ => () := by
  obtain ⟨rfl, ⟨pattern, hread⟩, hcomment⟩ := hends
  obtain ⟨after, hrun, hfinish⟩ := read_eq_ok_iff.1 hread
  rw [endsInComment_eq hrun] at hcomment
  have hsplit : (before ++ ")" ++ rest).toList ++ [')'] = before.toList ++ ')' :: (rest.toList ++ [')']) := by
    simp [String.toList_append]
  rw [read_group_eq, hsplit, Progress.run_append, Progress.run_within hrun, Except.bind,
    Progress.run_of_step (Progress.step_closing hcomment hfinish (anchor, false)).2, read, toList_anchor, run_anchor]
  refine Progress.map_read_erased ?_ _
  simp [Progress.erased, Progress.left, hcomment, anchor, initial]

theorem plain_closing (progress : Progress) : progress.plain ')' = .error .malformed ∨
    ∃ next, progress.plain ')' = .ok next ∧ ∀ text, next.mode ≠ .flags text := by
  change progress.closed = .error .malformed ∨ ∃ next, progress.closed = .ok next ∧ ∀ text, next.mode ≠ .flags text
  rw [Progress.closed]
  cases progress.around with
  | nil => exact .inl rfl
  | cons outer around => exact .inr ⟨_, rfl, fun text => Mode.noConfusion⟩

theorem repeated_closing (progress : Progress) (least : Nat) (most : Option Nat) :
    (progress.repeated least most true).bind (·.plain ')') = .error .malformed ∨
      ∃ next, (progress.repeated least most true).bind (·.plain ')') = .ok next ∧ ∀ text, next.mode ≠ .flags text := by
  rw [Progress.repeated, Draft.repeated]
  rcases progress.draft.items with _ | ⟨_ | item, items⟩
  · exact .inl rfl
  · exact .inl rfl
  · exact plain_closing _

/-- The only other reason for which a parenthesis is not taken is that it ends flags that are left out. -/
theorem step_parenthesis {progress : Progress} (hmode : ∀ text, progress.mode ≠ .flags text) :
    progress.step ')' = .error .malformed ∨
      ∃ next, progress.step ')' = .ok next ∧ ∀ text, next.mode ≠ .flags text := by
  rw [Progress.step]
  split
  · exact .inr ⟨_, rfl, hmode⟩
  · simp only [Progress.unlessBlank_closing]
    cases hread : progress.mode with
    | ready => exact plain_closing progress
    | escape => exact .inr ⟨_, rfl, fun text => Mode.noConfusion⟩
    | group => exact plain_closing progress.openedCounted
    | flags text => exact absurd hread (hmode text)
    | count text => exact .inr ⟨_, rfl, fun text => Mode.noConfusion⟩
    | repetition least most counted => cases counted <;> exact repeated_closing progress least most
    | members glyphs => exact .inr ⟨_, if_neg (by simp), fun text => Mode.noConfusion⟩
    | memberEscape glyphs => exact .inr ⟨_, rfl, fun text => Mode.noConfusion⟩

/-- A text that is no pattern and does not end its group makes none in the group. -/
theorem read_group_of_malformed (hread : read text = .error .malformed)
    (hnone : ∀ before rest, ¬EndsGroup text before rest) :
    read ("^(?:" ++ text ++ ")") = .error .malformed := by
  rw [read_group_eq]
  rcases Progress.run_within_cases (text.toList ++ [')']) initial (anchor, false) with
    hwithin | ⟨before, rest, after, pattern, hsplit, hrun, hcomment, hfinish⟩
  · rw [hwithin, Progress.run_append]
    rw [read] at hread
    cases hrun : initial.run text.toList with
    | error refusal =>
      rw [hrun] at hread
      rw [Except.error.inj hread]
      rfl
    | ok after =>
      rw [hrun] at hread
      have hfinish : after.finish = .error .malformed := hread
      have hmode : ∀ text, after.mode ≠ .flags text := mode_of_finish_ne (by simp [hfinish])
      obtain hstep | ⟨next, hstep, hmode⟩ := step_parenthesis hmode
      · rw [Except.bind, Progress.run_of_step_error hstep]
        rfl
      · rw [Except.bind, Progress.run_of_step hstep]
        exact finish_within _ hmode
  · have hbefore : read (.ofList before) = .ok pattern :=
      read_eq_ok_iff.2 ⟨after, by rwa [String.toList_ofList], hfinish⟩
    rcases List.eq_nil_or_concat rest with rfl | ⟨later, last, rfl⟩
    · obtain ⟨rfl, _⟩ := List.append_inj' hsplit rfl
      rw [String.ofList_toList, hread] at hbefore
      cases hbefore
    · rw [List.concat_eq_append, ← List.cons_append, ← List.append_assoc] at hsplit
      obtain ⟨hbody, _⟩ := List.append_inj' hsplit rfl
      refine absurd ⟨?_, ⟨pattern, hbefore⟩, ?_⟩ (hnone (.ofList before) (.ofList later))
      · apply String.toList_injective
        simpa [String.toList_append] using hbody
      · rw [endsInComment_eq (by rwa [String.toList_ofList]), hcomment]

end Pluck.Pattern
