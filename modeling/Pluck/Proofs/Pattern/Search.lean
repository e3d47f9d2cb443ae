import Pluck.Pattern.Search

/-!
# Where a match is

A match that begins at some place in a text ends there or later, and not after the end of the text. The leftmost match
begins at the start of the text exactly if there is a match there, and it is then the one that is preferred there
(`find?_eq_some_zero_iff`). So it does not matter that the rest of the text is searched too.
-/

namespace Pluck

namespace Program

variable {program : Program} {offset stop : Nat} {text : List Char}

/-- The ways that go on from here end no earlier, so that any other end is that of a way accepted before. -/
theorem follow_eq_some {best : Option Nat} {entered : List Label}
    (hfollow : program.follow offset best entered text = some stop) :
    best = some stop ∨ (offset ≤ stop ∧ stop ≤ offset + text.length) := by
  induction text generalizing offset best entered with
  | nil =>
    rw [follow] at hfollow
    split at hfollow
    · cases hfollow
      exact .inr ⟨Nat.le_refl _, Nat.le_refl _⟩
    · exact .inl hfollow
  | cons c rest ih =>
    have hbest : ∀ {accepted : Bool}, (if accepted then some offset else best) = some stop →
        best = some stop ∨ (offset ≤ stop ∧ stop ≤ offset + (c :: rest).length) := by
      intro accepted haccepted
      split at haccepted
      · cases haccepted
        exact .inr ⟨Nat.le_refl _, Nat.le_add_right _ _⟩
      · exact .inl haccepted
    rw [follow] at hfollow
    split at hfollow
    · exact hbest hfollow
    · rcases ih hfollow with hbefore | hlater
      · exact hbest hbefore
      · rw [List.length_cons]
        omega

theorem le_of_matchAt? (hmatch : program.matchAt? offset text = some stop) :
    offset ≤ stop ∧ stop ≤ offset + text.length := by
  rcases follow_eq_some hmatch with hbest | hlater
  · cases hbest
  · exact hlater

theorem le_of_findFrom? {start : Nat} (hfind : program.findFrom? offset text = some (start, stop)) :
    offset ≤ start := by
  induction offset, text using findFrom?.induct program with
  | case1 offset text found hmatch =>
    rw [findFrom?.eq_def] at hfind
    simp only [hmatch, Option.some.injEq, Prod.mk.injEq] at hfind
    exact Nat.le_of_eq hfind.1
  | case2 offset hmatch =>
    rw [findFrom?.eq_def] at hfind
    simp [hmatch] at hfind
  | case3 offset c rest hmatch ih =>
    rw [findFrom?.eq_def] at hfind
    simp only [hmatch] at hfind
    exact Nat.le_of_succ_le (ih hfind)

theorem findFrom?_eq_some_iff :
    program.findFrom? offset text = some (offset, stop) ↔ program.matchAt? offset text = some stop := by
  rw [findFrom?.eq_def]
  cases hmatch : program.matchAt? offset text with
  | some found => simp
  | none =>
    cases text with
    | nil => simp
    | cons c rest =>
      have hlater : program.findFrom? (offset + 1) rest ≠ some (offset, stop) := fun hfind =>
        Nat.not_succ_le_self offset (le_of_findFrom? hfind)
      simp [hlater]

end Program

theorem Pattern.find?_eq_some_zero_iff {pattern : Pattern} {text : List Char} {stop : Nat} :
    pattern.find? text = some (0, stop) ↔ pattern.program.matchAt? 0 text = some stop := by
  rw [find?]
  split
  · simp
  · exact Program.findFrom?_eq_some_iff

end Pluck
