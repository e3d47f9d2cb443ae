import Mathlib
import Pluck.Proofs.Lexicon.Searching
import Pluck.Proofs.Pattern.Groups
import Pluck.Proofs.Pattern.Programs

/-!
# What anchoring a rule's text does

The text of a rule that does not begin with an anchor is written into a group behind one. If the text is a pattern, the
rule takes what this pattern prefers at the start of what remains, unless it is empty; so does a rule whose text begins
with an anchor and is left as it is, also where only some of its branches are anchored. Only a pattern that ends in a
comment makes no rule, since the comment swallows the parenthesis that should end the group. `ofPattern_finds` says this
of the searches of every lexicon that has the rule.

If the text is not a pattern, the rule is refused, unless a closing parenthesis of the text ends the group early: then
it depends on the rest of the text, with the parenthesis that should have ended the group (`ofPattern_malformed`). So
there are texts that are no patterns and make rules all the same.
-/

namespace Pluck

namespace Rule

variable {text : String} {pattern : Pattern} {kind : TokenKind}

theorem ofPattern_eq_ok_iff {rule : Rule} :
    ofPattern text kind = .ok rule ↔ Pattern.read (anchoredText text) = .ok rule.pattern ∧ rule.kind = kind := by
  rw [ofPattern]
  cases Pattern.read (anchoredText text) with
  | error refusal => simp
  | ok anchored =>
    rcases rule with ⟨pattern, found⟩
    simp [eq_comm]

theorem ofPattern_eq_error_iff {error : InvalidPattern} :
    ofPattern text kind = .error error ↔
      error.pattern = text ∧ Pattern.read (anchoredText text) = .error error.refusal := by
  rw [ofPattern]
  cases Pattern.read (anchoredText text) with
  | ok anchored => simp
  | error refusal =>
    rcases error with ⟨pattern, found⟩
    simp [eq_comm]

/-! ### Texts that are patterns -/

theorem anchoredText_of_head? (hstart : text.toList.head? = some '^') : anchoredText text = text :=
  if_pos hstart

theorem anchoredText_of_ne (hstart : text.toList.head? ≠ some '^') : anchoredText text = "^(?:" ++ text ++ ")" :=
  if_neg hstart

/-- What becomes of a pattern that is anchored matches the same at the start of a text. -/
theorem exists_anchored (hpattern : Pattern.read text = .ok pattern)
    (hends : text.toList.head? = some '^' ∨ Pattern.endsInComment text = false) :
    ∃ anchored, Pattern.read (anchoredText text) = .ok anchored ∧
      ∀ rest, anchored.program.matchAt? 0 rest = pattern.program.matchAt? 0 rest := by
  by_cases hstart : text.toList.head? = some '^'
  · rw [anchoredText_of_head? hstart]
    exact ⟨pattern, hpattern, fun _ => rfl⟩
  · rw [anchoredText_of_ne hstart]
    exact ⟨_, Pattern.read_group hpattern (hends.resolve_left hstart), Pattern.matchAt?_concat_start pattern⟩

/-- What a rule takes is the match that a pattern prefers at the start of a text, if it has one that is not empty. -/
structure Finds (rule : Rule) (pattern : Pattern) : Prop where
  length?_iff : ∀ text length,
    rule.length? text = some length ↔ pattern.program.matchAt? 0 text = some length ∧ 0 < length
  /-- Where the rules before it take nothing, the match is the text of the next token, which the search for a token
  passes over or ends with. -/
  found : ∀ {lexicon : Lexicon} {earlier later : List Rule} {source : Source} {length : Nat},
    lexicon.rules = earlier ++ rule :: later → (∀ other ∈ earlier, other.length? source.rest = none) →
    pattern.program.matchAt? 0 source.rest = some length → 0 < length →
    ∃ token after, token.kind = rule.kind ∧ token.position = source.offset ∧ token.text.length = length ∧
      source.rest = token.text.toList ++ after.rest ∧ after.offset = token.stop ∧
      lexicon.token? source = some (token, after) ∧
      lexicon.next source =
        if rule.kind = lexicon.skipped then
          { lexicon.next after with passed := token :: (lexicon.next after).passed }
        else ⟨[], .token token, after⟩
  /-- Where it takes nothing, it is as if the rule were not there. -/
  passed : ∀ {lexicon : Lexicon} {earlier later : List Rule} {source : Source},
    lexicon.rules = earlier ++ rule :: later →
    (∀ length, pattern.program.matchAt? 0 source.rest = some length → length = 0) →
    lexicon.token? source = (Lexicon.mk (earlier ++ later) lexicon.skipped).token? source

theorem match?_of_length? {lexicon : Lexicon} {rule : Rule} {earlier later : List Rule} {text : List Char}
    {length : Nat} (hrules : lexicon.rules = earlier ++ rule :: later)
    (hearlier : ∀ other ∈ earlier, other.length? text = none) (hlength : rule.length? text = some length) :
    lexicon.match? text = some (rule.kind, length) := by
  have hnone : ∀ other ∈ earlier, ∀ length, ¬other.Takes text length := fun other hother =>
    length?_eq_none_iff.1 (hearlier other hother)
  exact Lexicon.match?_eq_some_iff.2 ⟨earlier, rule, later, hrules, hnone, length?_eq_some_iff.1 hlength, rfl⟩

theorem finds_of_matchAt?_eq {rule : Rule}
    (hmatch : ∀ text, rule.pattern.program.matchAt? 0 text = pattern.program.matchAt? 0 text) :
    rule.Finds pattern := by
  have hlength : ∀ text length,
      rule.length? text = some length ↔ pattern.program.matchAt? 0 text = some length ∧ 0 < length := by
    intro text length
    rw [length?_eq_some_iff, Takes, hmatch]
  refine ⟨hlength, ?_, ?_⟩
  · rintro lexicon earlier later ⟨offset, text⟩ length hrules hearlier hfound hpos
    have htakes := (hlength _ _).2 ⟨hfound, hpos⟩
    have hle := (length?_eq_some_iff.1 htakes).le
    obtain ⟨taken, rest, rfl, rfl⟩ : ∃ taken rest, text = taken ++ rest ∧ taken.length = length :=
      ⟨text.take length, text.drop length, (List.take_append_drop _ _).symm, List.length_take_of_le hle⟩
    have htoken := Lexicon.token?_of_match? offset (match?_of_length? hrules hearlier htakes)
    have hrest : taken ++ rest ≠ [] := List.append_ne_nil_of_left_ne_nil (List.length_pos_iff.1 hpos) _
    refine ⟨_, _, rfl, rfl, String.length_ofList, ?_, rfl, htoken, Lexicon.next_of_token? hrest htoken⟩
    rw [String.toList_ofList]
  · intro lexicon earlier later source hrules hempty
    have hnone : rule.length? source.rest = none := by
      rw [Option.eq_none_iff_forall_ne_some]
      intro length hsome
      obtain ⟨hfound, hpos⟩ := (hlength _ _).1 hsome
      exact Nat.ne_of_gt hpos (hempty _ hfound)
    simp [Lexicon.token?, Lexicon.match?, List.findSome?_append, hrules, hnone]

/-- A text that is a pattern makes a rule, and the rule finds what the pattern prefers, unless the text is written into
a group and ends in a comment. Then no rule is made of it, although it is a pattern. -/
theorem ofPattern_finds (hpattern : Pattern.read text = .ok pattern) (kind : TokenKind) :
    (text.toList.head? = some '^' ∨ Pattern.endsInComment text = false →
      ∃ rule, ofPattern text kind = .ok rule ∧ rule.kind = kind ∧ rule.Finds pattern) ∧
    (text.toList.head? ≠ some '^' → Pattern.endsInComment text = true →
      ofPattern text kind = .error ⟨text, .malformed⟩) := by
  constructor
  · intro hends
    obtain ⟨anchored, hanchored, hmatch⟩ := exists_anchored hpattern hends
    exact ⟨⟨anchored, kind⟩, ofPattern_eq_ok_iff.2 ⟨hanchored, rfl⟩, rfl, finds_of_matchAt?_eq hmatch⟩
  · intro hstart hends
    refine ofPattern_eq_error_iff.2 ⟨rfl, ?_⟩
    rw [anchoredText_of_ne hstart]
    exact Pattern.read_group_of_endsInComment hpattern hends

/-- The first text is left as it is, although its second branch is not anchored; the second one is written into a group,
which the parenthesis in its class does not end; and the third one ends in a comment. -/
theorem ofPattern_finds_branches :
    (∃ rule, ofPattern "^a|b" .name = .ok rule ∧ rule.kind = .name ∧
      rule.Finds (.alt (.seq .start (.literal ['a'])) (.literal ['b']))) ∧
    (∃ rule, ofPattern "[)a]" .skip = .ok rule ∧ rule.kind = .skip ∧ rule.Finds (.one ⟨[(41, 41), (97, 97)]⟩)) ∧
    ofPattern "(?x)a # c" .name = .error ⟨"(?x)a # c", .malformed⟩ :=
  ⟨(ofPattern_finds (by cbv) .name).1 (.inl (by cbv)), (ofPattern_finds (by cbv) .skip).1 (.inr (by cbv)),
    (@ofPattern_finds "(?x)a # c" (.literal ['a']) (by cbv) .name).2 (by decide) (by cbv)⟩

/-- The text is a pattern for the character before its comment, and makes no rule. -/
theorem ofPattern_comment :
    Pattern.read "(?x)a # c" = .ok (.literal ['a']) ∧
      ofPattern "(?x)a # c" .name = .error ⟨"(?x)a # c", .malformed⟩ := by
  refine ⟨by cbv, ofPattern_eq_error_iff.2 ⟨rfl, ?_⟩⟩
  rw [anchoredText_of_ne (by decide)]
  cbv

/-! ### Texts that are not patterns -/

/-- A text that is no pattern makes no rule if it begins with an anchor, or if it does not end the group that it is
written into. If it ends this group itself, it is what follows in the text that makes a rule or is refused, read behind
an anchor and with the parenthesis that should have ended the group. -/
theorem ofPattern_malformed (hpattern : Pattern.read text = .error .malformed) (kind : TokenKind) :
    (text.toList.head? = some '^' ∨ (∀ before rest, ¬Pattern.EndsGroup text before rest) →
      ofPattern text kind = .error ⟨text, .malformed⟩) ∧
    ∀ before rest, text.toList.head? ≠ some '^' → Pattern.EndsGroup text before rest →
      ((∃ rule, ofPattern text kind = .ok rule) ↔ ∃ other, Pattern.read ("^" ++ rest ++ ")") = .ok other) ∧
      ∀ refusal, ofPattern text kind = .error ⟨text, refusal⟩ ↔
        Pattern.read ("^" ++ rest ++ ")") = .error refusal := by
  constructor
  · intro hgroup
    refine ofPattern_eq_error_iff.2 ⟨rfl, ?_⟩
    by_cases hstart : text.toList.head? = some '^'
    · rwa [anchoredText_of_head? hstart]
    · rw [anchoredText_of_ne hstart]
      exact Pattern.read_group_of_malformed hpattern (hgroup.resolve_left hstart)
  · intro before rest hstart hends
    have hsame := Pattern.map_read_group hends
    rw [← anchoredText_of_ne hstart] at hsame
    rw [ofPattern]
    cases hgroup : Pattern.read (anchoredText text) <;> cases hrest : Pattern.read ("^" ++ rest ++ ")") <;>
      rw [hgroup, hrest] at hsame
    case error.error => simp [Except.error.inj hsame]
    case ok.ok => simp
    all_goals cases hsame

/-- The first text ends its group, and the rest is a pattern; the second one is refused at its end. -/
theorem ofPattern_malformed_halves :
    (∃ rule, ofPattern "a)|(b" .name = .ok rule) ∧ ofPattern "a)b" .name = .error ⟨"a)b", .malformed⟩ := by
  have hfirst : Pattern.EndsGroup "a)|(b" "a" "|(b" := ⟨rfl, ⟨.literal ['a'], by cbv⟩, by cbv⟩
  have hsecond : Pattern.EndsGroup "a)b" "a" "b" := ⟨rfl, ⟨.literal ['a'], by cbv⟩, by cbv⟩
  constructor
  · refine (((ofPattern_malformed (by cbv) .name).2 "a" "|(b" (by decide) hfirst).1).2 ⟨?_, ?_⟩
    · exact .alt .start (.group 0 (.literal ['b']))
    · cbv
  · exact ((ofPattern_malformed (by cbv) .name).2 "a" "b" (by decide) hsecond).2 .malformed |>.2 (by cbv)

/-- The parenthesis that should have ended the group ends the second half of the text, which is no pattern. -/
theorem ofPattern_two_halves :
    Pattern.read "a)|(b" = .error .malformed ∧ ∃ rule, ofPattern "a)|(b" .name = .ok rule := by
  refine ⟨by cbv, ⟨.alt (.seq .start (.literal ['a'])) (.group 0 (.literal ['b'])), .name⟩, ?_⟩
  refine ofPattern_eq_ok_iff.2 ⟨?_, rfl⟩
  rw [anchoredText_of_ne (by decide)]
  cbv

end Rule

end Pluck
