import Pluck.Lexicon

/-!
# Reading as one search after another

`Lexicon.stream` collects what `Lexicon.next` answers when it is asked again and again. `Lexicon.read` goes over the
same text without asking: it lists every token, those that are skipped included. The two agree, in that the tokens of
the stream are the tokens of the reading that are kept, and both end at the same place. The proofs go by the cases of
one step, of which the equations `next_of_*` and `read_of_*` say all there is to know.
-/

namespace Pluck

namespace Lexicon

/-- What one search after another finds until a search finds no token: the tokens in their order, and where the last
search was stuck, if it was. -/
structure Stream where
  tokens : List Token
  stuck : Option Stuck
  deriving Repr, DecidableEq

def stream (lexicon : Lexicon) (source : Source) : Stream :=
  match found : (lexicon.next source).answer with
  | .finished => ⟨[], none⟩
  | .stuck reason => ⟨[], some reason⟩
  | .token token =>
    have := length_lt_of_next found
    let later := lexicon.stream (lexicon.next source).source
    ⟨token :: later.tokens, later.stuck⟩
termination_by source.rest.length

variable {lexicon : Lexicon} {source after : Source} {token : Token}

/-! ### One token -/

/-- What a rule takes from the start of a text is the text of the token, and the rest is what remains. -/
theorem token?_of_match? {kind : TokenKind} {taken rest : List Char} (offset : Nat)
    (hmatch : lexicon.match? (taken ++ rest) = some (kind, taken.length)) :
    lexicon.token? ⟨offset, taken ++ rest⟩ =
      some (⟨kind, String.ofList taken, offset⟩, ⟨offset + (String.ofList taken).utf8ByteSize, rest⟩) := by
  rw [token?, hmatch]
  simp [Token.stop]

/-! ### One search -/

theorem next_of_nil (hrest : source.rest = []) : lexicon.next source = ⟨[], .finished, source⟩ := by
  rw [next, dif_pos hrest]

theorem next_of_stuck (hrest : source.rest ≠ []) (htoken : lexicon.token? source = none) :
    lexicon.next source = ⟨[], .stuck ⟨source.offset, String.ofList source.rest⟩, source⟩ := by
  rw [next, dif_neg hrest]
  split
  · rfl
  · rename_i hsome
    rw [htoken] at hsome
    cases hsome

theorem next_of_token? (hrest : source.rest ≠ []) (htoken : lexicon.token? source = some (token, after)) :
    lexicon.next source =
      if token.kind = lexicon.skipped then
        { lexicon.next after with passed := token :: (lexicon.next after).passed }
      else ⟨[], .token token, after⟩ := by
  rw [next, dif_neg hrest]
  split
  · rename_i hnone
    rw [htoken] at hnone
    cases hnone
  · rename_i hsome
    rw [htoken] at hsome
    cases hsome
    rfl

/-! ### One step of a reading -/

/-- The recursion of `read` without the proof that it ends. -/
theorem read_eq (lexicon : Lexicon) (source : Source) :
    lexicon.read source =
      match (lexicon.next source).answer with
      | .finished => ⟨(lexicon.next source).passed, none⟩
      | .stuck reason => ⟨(lexicon.next source).passed, some reason⟩
      | .token token =>
        ⟨(lexicon.next source).passed ++ token :: (lexicon.read (lexicon.next source).source).found,
          (lexicon.read (lexicon.next source).source).stuck⟩ := by
  rw [read]
  split <;> rename_i hanswer <;> simp only [hanswer]

theorem read_of_nil (hrest : source.rest = []) : lexicon.read source = ⟨[], none⟩ := by
  rw [read_eq, next_of_nil hrest]

/-- A reading goes on after each token in the same way, whether or not the token is skipped. -/
theorem read_of_token? (hrest : source.rest ≠ []) (htoken : lexicon.token? source = some (token, after)) :
    lexicon.read source = ⟨token :: (lexicon.read after).found, (lexicon.read after).stuck⟩ := by
  rw [read_eq, next_of_token? hrest htoken]
  by_cases hkind : token.kind = lexicon.skipped
  · rw [if_pos hkind, read_eq lexicon after]
    cases (lexicon.next after).answer <;> rfl
  · rw [if_neg hkind]
    rfl

/-- A reading ends with the text if some rule applies wherever something remains. -/
theorem stuck_read_of_match? (hmatch : ∀ text ≠ [], (lexicon.match? text).isSome) (source : Source) :
    (lexicon.read source).stuck = none := by
  induction hlength : source.rest.length using Nat.strongRecOn generalizing source with
  | ind length ih =>
    by_cases hrest : source.rest = []
    · rw [read_of_nil hrest]
    · obtain ⟨_, hfound⟩ := Option.isSome_iff_exists.1 (hmatch source.rest hrest)
      obtain ⟨⟨token, after⟩, htoken⟩ : ∃ found, lexicon.token? source = some found :=
        ⟨_, Option.map_eq_some_iff.2 ⟨_, hfound, rfl⟩⟩
      rw [read_of_token? hrest htoken]
      exact ih _ (hlength ▸ length_lt_of_token? htoken hrest) after rfl

/-! ### The stream and the tokens of a reading -/

/-- A search passes over skipped tokens only. -/
theorem kind_of_mem_passed (lexicon : Lexicon) (source : Source) :
    ∀ token ∈ (lexicon.next source).passed, token.kind = lexicon.skipped := by
  fun_induction next lexicon source with
  | case1 | case2 | case4 =>
    intro token hmem
    cases hmem
  | case3 source _ token after _ hkind _ _ ih =>
    intro passed hpassed
    rcases List.mem_cons.1 hpassed with rfl | hlater
    · exact hkind
    · exact ih passed hlater

theorem kind_of_next (lexicon : Lexicon) (source : Source) (hfound : (lexicon.next source).answer = .token token) :
    token.kind ≠ lexicon.skipped := by
  fun_induction next lexicon source with
  | case1 | case2 => cases hfound
  | case3 source _ _ _ _ _ _ _ ih => exact ih hfound
  | case4 source _ found after _ hkind =>
    cases hfound
    exact hkind

theorem stuck_stream (lexicon : Lexicon) (source : Source) :
    (lexicon.stream source).stuck = (lexicon.read source).stuck := by
  fun_induction stream lexicon source with
  | case1 source hanswer => rw [read_eq, hanswer]
  | case2 source reason hanswer => rw [read_eq, hanswer]
  | case3 source token hanswer _ later ih => rw [read_eq, hanswer]; exact ih

/-- The tokens that one search after another finds are those that the reading keeps. -/
theorem tokens_stream (lexicon : Lexicon) (source : Source) :
    (lexicon.stream source).tokens = lexicon.kept (lexicon.read source) := by
  have hpassed : ∀ source, (lexicon.next source).passed.filter (·.kind ≠ lexicon.skipped) = [] := by
    intro source
    rw [List.filter_eq_nil_iff]
    intro token hmem
    simp [kind_of_mem_passed lexicon source token hmem]
  fun_induction stream lexicon source with
  | case1 source hanswer => rw [read_eq, hanswer, kept, hpassed]
  | case2 source reason hanswer => rw [read_eq, hanswer, kept, hpassed]
  | case3 source token hanswer _ later ih =>
    have hkind := kind_of_next lexicon source hanswer
    rw [read_eq, hanswer, kept, List.filter_append, hpassed, List.nil_append,
      List.filter_cons_of_pos (by simpa using hkind)]
    exact congrArg (token :: ·) ih

end Lexicon

end Pluck
