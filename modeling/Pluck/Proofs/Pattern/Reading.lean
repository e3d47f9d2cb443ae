import Pluck.Pattern.Reader

/-!
# Reading a pattern within a group

What the proofs know about how a written pattern is read, character by character. Reading goes on in the same way when
one more group is open around everything (`step_within`), up to a parenthesis where reading on its own could have ended:
this one ends the group (`step_closing`). And whether a text is read, or why it is not, does not depend on the patterns
that have been read before it (`map_step_erased`). These are facts about one step, and carry over to whole texts by
induction along the characters: `run_within`, `run_within_cases` and `map_read_erased`.
-/

namespace Pluck.Pattern

variable {progress after : Progress} {pattern : Pattern} {outer : Draft × Bool} {c : Char}

namespace Progress

theorem run_nil (progress : Progress) : progress.run [] = .ok progress := rfl

theorem run_cons (progress : Progress) (c : Char) (rest : List Char) :
    progress.run (c :: rest) = (progress.step c).bind (·.run rest) := rfl

theorem run_append (progress : Progress) (before rest : List Char) :
    progress.run (before ++ rest) = (progress.run before).bind (·.run rest) :=
  List.foldlM_append

theorem run_of_step (hstep : progress.step c = .ok after) (rest : List Char) :
    progress.run (c :: rest) = after.run rest := by
  rw [run_cons, hstep]
  rfl

theorem run_of_step_error {refusal : Refusal} (hstep : progress.step c = .error refusal) (rest : List Char) :
    progress.run (c :: rest) = .error refusal := by
  rw [run_cons, hstep]
  rfl

/-- A progress is finished where anything may begin, or a question mark may follow, and no group is open. -/
theorem finish_cases (hfinish : progress.finish = .ok pattern) :
    progress.around = [] ∧
      ((progress.mode = .ready ∧ pattern = progress.draft.finish) ∨
        ∃ least most counted draft, progress.mode = .repetition least most counted ∧
          progress.draft.repeated least most true = .ok draft ∧ pattern = draft.finish) := by
  unfold finish at hfinish
  split at hfinish
  · rename_i hmode haround
    exact ⟨haround, .inl ⟨hmode, (Except.ok.inj hfinish).symm⟩⟩
  · rename_i least most counted hmode haround
    cases hrepeated : progress.draft.repeated least most true with
    | error refusal =>
      rw [hrepeated] at hfinish
      cases hfinish
    | ok draft =>
      rw [hrepeated] at hfinish
      exact ⟨haround, .inr ⟨least, most, counted, draft, hmode, hrepeated, (Except.ok.inj hfinish).symm⟩⟩
  · cases hfinish
  · cases hfinish

/-! ### One more group around everything -/

def within (progress : Progress) (outer : Draft × Bool) : Progress :=
  { progress with around := progress.around ++ [outer] }

/-- The progress after the end of the outermost group, which has been read as a pattern. -/
def left (progress : Progress) (pattern : Pattern) (outer : Draft × Bool) : Progress :=
  { progress with verbose := outer.2, mode := .ready, draft := outer.1.add pattern, around := [] }

@[simp] theorem verbose_within : (progress.within outer).verbose = progress.verbose := rfl

@[simp] theorem inComment_within : (progress.within outer).inComment = progress.inComment := rfl

@[simp] theorem mode_within : (progress.within outer).mode = progress.mode := rfl

theorem repeated_within (least : Nat) (most : Option Nat) (greedy : Bool) :
    (progress.within outer).repeated least most greedy =
      (progress.repeated least most greedy).map (·.within outer) := by
  rw [repeated, repeated, within]
  cases progress.draft.repeated least most greedy <;> rfl

theorem closed_within (haround : progress.around ≠ []) :
    (progress.within outer).closed = progress.closed.map (·.within outer) := by
  rw [closed, closed, within]
  obtain ⟨group, others, hgroups⟩ := List.exists_cons_of_ne_nil haround
  rw [hgroups]
  rfl

theorem unlessBlank_within (c : Char) (otherwise : Except Refusal Progress) :
    (progress.within outer).unlessBlank c (otherwise.map (·.within outer)) =
      (progress.unlessBlank c otherwise).map (·.within outer) := by
  rw [unlessBlank, unlessBlank, verbose_within]
  split
  · rfl
  · split <;> rfl

theorem plain_within (hclosed : c = ')' → progress.around ≠ []) :
    (progress.within outer).plain c = (progress.plain c).map (·.within outer) := by
  unfold plain
  split
  case h_3 => exact closed_within (hclosed rfl)
  all_goals rfl

theorem flag_within (text : List Char) (c : Char) :
    (progress.within outer).flag text c = (progress.flag text c).map (·.within outer) := by
  unfold flag
  rw [verbose_within]
  split
  · cases verbosity? text <;> rfl
  · cases if text.isEmpty then some progress.verbose else verbosity? text <;> rfl
  · rfl

theorem counted_within (text : List Char) (c : Char) :
    (progress.within outer).counted text c = (progress.counted text c).map (·.within outer) := by
  unfold counted
  split
  · cases rounds? text <;> rfl
  · rfl

theorem member_within (glyphs : List Glyph) (c : Char) :
    (progress.within outer).member glyphs c = (progress.member glyphs c).map (·.within outer) := by
  unfold member
  split
  · cases classOf glyphs <;> rfl
  · split <;> rfl

/-- What follows a repetition without a question mark. -/
theorem bind_repeated_within {least : Nat} {most : Option Nat} {next : Progress → Except Refusal Progress}
    (hnext : ∀ repeated, progress.repeated least most true = .ok repeated →
      next (repeated.within outer) = (next repeated).map (·.within outer)) :
    ((progress.within outer).repeated least most true).bind next =
      ((progress.repeated least most true).bind next).map (·.within outer) := by
  rw [repeated_within]
  cases hrepeated : progress.repeated least most true with
  | error refusal => rfl
  | ok repeated => exact hnext repeated hrepeated

theorem around_of_repeated {least : Nat} {most : Option Nat} {greedy : Bool} {repeated : Progress}
    (hrepeated : progress.repeated least most greedy = .ok repeated) :
    repeated.around = progress.around ∧
      ∃ draft, progress.draft.repeated least most greedy = .ok draft := by
  rw [Progress.repeated] at hrepeated
  cases hdraft : progress.draft.repeated least most greedy with
  | error refusal =>
    rw [hdraft] at hrepeated
    cases hrepeated
  | ok draft =>
    rw [hdraft] at hrepeated
    cases hrepeated
    exact ⟨rfl, draft, rfl⟩

/-- A step that does not end the text of a group is the same with a further group around it. -/
theorem step_within (hopen : c = ')' → progress.inComment = false → ∀ pattern, progress.finish ≠ .ok pattern) :
    (progress.within outer).step c = (progress.step c).map (·.within outer) := by
  rw [step, step, inComment_within, mode_within]
  split
  · rfl
  · rename_i hcomment
    replace hopen : c = ')' → ∀ pattern, progress.finish ≠ .ok pattern :=
      fun hc => hopen hc (eq_false_of_ne_true hcomment)
    -- Without a question mark, what the character does comes after the repetition, which could have ended the text.
    have hplain {least : Nat} {most : Option Nat} {counted : Bool}
        (hmode : progress.mode = .repetition least most counted) (repeated : Progress)
        (hrepeated : progress.repeated least most true = .ok repeated) :
        (repeated.within outer).plain c = (repeated.plain c).map (·.within outer) := by
      obtain ⟨haround, draft, hdraft⟩ := around_of_repeated hrepeated
      refine plain_within fun hc hnil => hopen hc draft.finish ?_
      rw [haround] at hnil
      simp only [finish, hmode, hnil, hdraft]
      rfl
    cases hmode : progress.mode with
    | ready =>
      have hready : c = ')' → progress.around ≠ [] := by
        intro hc hnil
        refine hopen hc progress.draft.finish ?_
        simp only [finish, hmode, hnil]
      simp only [plain_within hready, unlessBlank_within]
    | escape => cases escaped c <;> rfl
    | group =>
      dsimp only
      rw [← unlessBlank_within]
      split
      · rfl
      · exact congrArg _ (@plain_within progress.openedCounted outer c fun _ => List.cons_ne_nil _ _)
    | flags text => exact flag_within text c
    | count text => simp only [counted_within, unlessBlank_within]
    | repetition least most counted =>
      cases counted with
      | true =>
        dsimp only
        rw [← unlessBlank_within]
        split
        · rw [repeated_within]
        · rw [bind_repeated_within (hplain hmode)]
      | false =>
        dsimp only
        split
        · rw [repeated_within]
        · refine bind_repeated_within fun repeated hrepeated => ?_
          rw [hplain hmode repeated hrepeated, unlessBlank_within]
    | members glyphs =>
      dsimp only
      rw [verbose_within]
      split
      · rfl
      · rw [member_within, unlessBlank_within]
    | memberEscape glyphs => cases escaped c <;> rfl

theorem unlessBlank_closing (otherwise : Except Refusal Progress) : progress.unlessBlank ')' otherwise = otherwise := by
  have hblank : Text.isBlank ')' = false := by decide
  simp [unlessBlank, hblank]

/-- Where a text ends that can be read on its own, a parenthesis ends the group around it. -/
theorem step_closing (hcomment : progress.inComment = false) (hfinish : progress.finish = .ok pattern)
    (outer : Draft × Bool) :
    progress.step ')' = .error .malformed ∧ (progress.within outer).step ')' = .ok (progress.left pattern outer) := by
  have hready {ready : Progress} (haround : ready.around = []) :
      ready.plain ')' = .error .malformed ∧
        (ready.within outer).plain ')' = .ok (ready.left ready.draft.finish outer) := by
    simp [plain, closed, within, left, haround]
  unfold step
  rw [inComment_within, mode_within, hcomment]
  obtain ⟨haround, ⟨hmode, rfl⟩ | ⟨least, most, counted, draft, hmode, hdraft, rfl⟩⟩ := finish_cases hfinish
  · simp only [hmode, unlessBlank_closing]
    exact hready haround
  · have hrepeated : progress.repeated least most true = .ok { progress with mode := .ready, draft } := by
      rw [repeated, hdraft]
      rfl
    have hends := @hready { progress with mode := .ready, draft } haround
    cases counted <;>
      simp only [hmode, unlessBlank_closing, repeated_within, hrepeated]
    · exact hends
    · exact hends

/-! ### What has been read before -/

end Progress

/-- The draft as far as it matters for reading on: whether it has an item to repeat. -/
def Draft.erased (draft : Draft) : Draft :=
  ⟨none, [], (draft.items.head?.map (Option.map fun _ => Pattern.empty)).toList⟩

namespace Draft

theorem items_erased (draft : Draft) :
    draft.erased.items = (draft.items.head?.map (Option.map fun _ => Pattern.empty)).toList := rfl

theorem erased_cons (number : Option Nat) (branches : List Pattern) (item : Option Pattern)
    (items : List (Option Pattern)) :
    erased ⟨number, branches, item :: items⟩ = ⟨none, [], [item.map fun _ => Pattern.empty]⟩ := rfl

@[simp] theorem erased_add (draft : Draft) (item : Option Pattern) :
    (draft.add item).erased = ⟨none, [], [item.map fun _ => Pattern.empty]⟩ := rfl

@[simp] theorem erased_opened (number : Option Nat) : (opened number).erased = opened none := rfl

@[simp] theorem erased_nextBranch (draft : Draft) : draft.nextBranch.erased = opened none := rfl

@[simp] theorem erased_erased (draft : Draft) : draft.erased.erased = draft.erased := by
  obtain ⟨number, branches, _ | ⟨_ | item, items⟩⟩ := draft <;> rfl

end Draft

namespace Progress

/-- The progress without the patterns that have been read. -/
def erased (progress : Progress) : Progress :=
  { progress with
    count := 0
    draft := progress.draft.erased
    around := progress.around.map fun (draft, verbose) => (draft.erased, verbose) }

@[simp] theorem verbose_erased : progress.erased.verbose = progress.verbose := rfl

@[simp] theorem inComment_erased : progress.erased.inComment = progress.inComment := rfl

@[simp] theorem mode_erased : progress.erased.mode = progress.mode := rfl

@[simp] theorem erased_erased (progress : Progress) : progress.erased.erased = progress.erased := by
  simp [erased]

@[simp] theorem erased_enter (mode : Mode) : (progress.erased.enter mode).erased = (progress.enter mode).erased := by
  simp [erased, enter]

@[simp] theorem erased_add (item : Option Pattern) :
    (progress.erased.add item).erased = (progress.add item).erased := by
  simp [erased, add]

@[simp] theorem erased_opened (number : Option Nat) (verbose : Bool) :
    (progress.erased.opened number verbose).erased = (progress.opened number verbose).erased := by
  simp [erased, opened]

theorem erased_openedCounted : progress.erased.openedCounted.erased = progress.openedCounted.erased := by
  simp [erased, openedCounted, opened]

theorem map_closed_erased : progress.erased.closed.map erased = progress.closed.map erased := by
  obtain ⟨verbose, inComment, mode, count, draft, _ | ⟨outer, around⟩⟩ := progress <;>
    simp [erased, closed, Except.map]

theorem map_repeated_erased (least : Nat) (most : Option Nat) (greedy : Bool) :
    (progress.erased.repeated least most greedy).map erased = (progress.repeated least most greedy).map erased := by
  rcases hitems : progress.draft.items with _ | ⟨_ | item, items⟩ <;>
    simp [erased, repeated, Except.map, Draft.repeated, Draft.items_erased, Draft.erased_cons, hitems]

theorem map_unlessBlank_erased {otherwise other : Except Refusal Progress}
    (hotherwise : otherwise.map erased = other.map erased) :
    (progress.erased.unlessBlank c otherwise).map erased = (progress.unlessBlank c other).map erased := by
  unfold unlessBlank
  rw [verbose_erased]
  split
  · simp [Except.map, erased]
  · split
    · simp [Except.map, erased_erased]
    · exact hotherwise

theorem map_plain_erased (c : Char) : (progress.erased.plain c).map erased = (progress.plain c).map erased := by
  unfold plain
  split
  case h_3 => exact map_closed_erased
  case h_9 => simp [Except.map, erased]
  all_goals simp [Except.map]

theorem map_flag_erased (text : List Char) (c : Char) :
    (progress.erased.flag text c).map erased = (progress.flag text c).map erased := by
  unfold flag
  rw [verbose_erased]
  split
  · cases verbosity? text with
    | none => rfl
    | some verbose => simp [Except.map, erased, add]
  · cases if text.isEmpty then some progress.verbose else verbosity? text with
    | none => rfl
    | some verbose => simp [Except.map]
  · simp [Except.map]

theorem map_counted_erased (text : List Char) (c : Char) :
    (progress.erased.counted text c).map erased = (progress.counted text c).map erased := by
  unfold counted
  split
  · cases rounds? text with
    | none => rfl
    | some rounds => simp [Except.map]
  · simp [Except.map]

theorem map_member_erased (glyphs : List Glyph) (c : Char) :
    (progress.erased.member glyphs c).map erased = (progress.member glyphs c).map erased := by
  unfold member
  split
  · cases classOf glyphs with
    | error refusal => rfl
    | ok set => simp [Except.map]
  · split <;> simp [Except.map]

/-- What goes on in the same way from a progress and from what is left of it does so after two readings that have the
same left. -/
theorem map_bind_erased {α β : Type} {first second : Except Refusal Progress} {next : Progress → Except Refusal α}
    {f : α → β} (hsame : first.map erased = second.map erased)
    (hnext : ∀ progress, (next progress.erased).map f = (next progress).map f) :
    (first.bind next).map f = (second.bind next).map f := by
  cases first <;> cases second
  case error.error => rw [Except.error.inj hsame]
  case ok.ok first second =>
    have herased : first.erased = second.erased := Except.ok.inj hsame
    calc (next first).map f = (next first.erased).map f := (hnext first).symm
      _ = (next second).map f := by rw [herased, hnext]
  all_goals cases hsame

/-- A step does the same, whatever has been read before. -/
theorem map_step_erased (c : Char) : (progress.erased.step c).map erased = (progress.step c).map erased := by
  rw [step, step, inComment_erased, mode_erased]
  split
  · simp [Except.map, erased]
  · cases progress.mode with
    | ready => exact map_unlessBlank_erased (map_plain_erased c)
    | escape =>
      cases escaped c with
      | error refusal => rfl
      | ok glyph => simp [Except.map]
    | group =>
      refine map_unlessBlank_erased ?_
      split
      · simp [Except.map]
      · rw [← map_plain_erased, erased_openedCounted, map_plain_erased]
    | flags text => exact map_flag_erased text c
    | count text => exact map_unlessBlank_erased (map_counted_erased text c)
    | repetition least most counted =>
      cases counted with
      | true =>
        refine map_unlessBlank_erased ?_
        split
        · exact map_repeated_erased least most false
        · exact map_bind_erased (map_repeated_erased least most true) fun _ => map_plain_erased c
      | false =>
        dsimp only
        split
        · exact map_repeated_erased least most false
        · exact map_bind_erased (map_repeated_erased least most true) fun _ =>
            map_unlessBlank_erased (map_plain_erased c)
    | members glyphs =>
      dsimp only
      rw [verbose_erased]
      split
      · rfl
      · exact map_unlessBlank_erased (map_member_erased glyphs c)
    | memberEscape glyphs =>
      cases escaped c with
      | error refusal => rfl
      | ok glyph => simp [Except.map]

/-- Reading ends in the same way, whatever has been read before. -/
theorem map_finish_erased : progress.erased.finish.map (fun _ => ()) = progress.finish.map fun _ => () := by
  obtain ⟨verbose, inComment, mode, count, draft, _ | ⟨outer, around⟩⟩ := progress
  · cases mode with
    | repetition least most counted =>
      rcases hitems : draft.items with _ | ⟨_ | item, items⟩ <;>
        simp [erased, finish, Except.map, Draft.repeated, Draft.items_erased, hitems]
    | _ => rfl
  · cases mode <;> rfl

/-! ### Whole texts -/

variable {text before rest : List Char}

theorem run_within (hrun : progress.run text = .ok after) (outer : Draft × Bool) :
    (progress.within outer).run text = .ok (after.within outer) := by
  induction text generalizing progress with
  | nil =>
    cases hrun
    rfl
  | cons c rest ih =>
    cases hstep : progress.step c with
    | error refusal =>
      rw [run_of_step_error hstep] at hrun
      cases hrun
    | ok next =>
      rw [run_of_step hstep] at hrun
      have hwithin : (progress.within outer).step c = .ok (next.within outer) := by
        rw [step_within, hstep]
        · rfl
        · rintro rfl hcomment pattern hfinish
          rw [(step_closing hcomment hfinish outer).1] at hstep
          cases hstep
      rw [run_of_step hwithin]
      exact ih hrun

/-- A text within a group is read on its own up to the parenthesis that ends the group, if there is one. -/
theorem run_within_cases (text : List Char) (progress : Progress) (outer : Draft × Bool) :
    (progress.within outer).run text = (progress.run text).map (·.within outer) ∨
      ∃ before rest after pattern, text = before ++ ')' :: rest ∧ progress.run before = .ok after ∧
        after.inComment = false ∧ after.finish = .ok pattern := by
  induction text generalizing progress with
  | nil => exact .inl rfl
  | cons c rest ih =>
    by_cases hends : c = ')' ∧ progress.inComment = false ∧ ∃ pattern, progress.finish = .ok pattern
    · obtain ⟨rfl, hcomment, pattern, hfinish⟩ := hends
      exact .inr ⟨[], rest, progress, pattern, rfl, rfl, hcomment, hfinish⟩
    · have hwithin := @step_within progress outer c fun hc hcomment pattern hfinish =>
        hends ⟨hc, hcomment, pattern, hfinish⟩
      cases hstep : progress.step c with
      | error refusal =>
        rw [hstep] at hwithin
        exact .inl (by rw [run_of_step_error hstep, run_of_step_error hwithin]; rfl)
      | ok next =>
        rw [hstep] at hwithin
        rw [run_of_step hstep, run_of_step hwithin]
        refine (ih next).imp_right ?_
        rintro ⟨before, later, after, pattern, rfl, hrun, hends⟩
        exact ⟨c :: before, later, after, pattern, rfl, (run_of_step hstep before).trans hrun, hends⟩

theorem map_run_erased (text : List Char) (progress : Progress) :
    (progress.erased.run text).map erased = (progress.run text).map erased := by
  induction text generalizing progress with
  | nil => simp [run_nil, Except.map]
  | cons c rest ih =>
    rw [run_cons, run_cons]
    exact map_bind_erased (map_step_erased c) ih

/-- Whether a text is read, and why not, is the same after the same without the patterns that have been read. -/
theorem map_read_erased {other : Progress} (hsame : progress.erased = other.erased) (text : List Char) :
    ((progress.run text).bind finish).map (fun _ => ()) = ((other.run text).bind finish).map fun _ => () := by
  refine map_bind_erased ?_ fun _ => map_finish_erased
  rw [← map_run_erased, hsame, map_run_erased]

end Progress

end Pluck.Pattern
