import Mathlib.Logic.Function.Iterate
import Pluck.Proofs.Lexicon.Reading
import Pluck.Proofs.Pattern.Search

/-!
# One search after another

A lexicon is asked for one token after the other, and each search begins where the one before it has ended. Here is what
holds of such a run of searches over any text, whatever the rules are and whichever kind is skipped. The tokens that are
returned and those that are passed over lie one after the other from the start of the text to where the run has come to,
and each of them is what the first rule that takes anything takes there. This is the relation `Spans`: one search keeps
it (`spans_next`), and hence any number of searches does, and so does a reading, which is covered by its tokens if it
ends with the text (`contiguous_read`). How a run ends is read off the last search. `goesThrough` puts all of it
together.
-/

namespace Pluck

/-! ### What a rule takes -/

/-- The rule has a match at the start of the text, and the match that it prefers there is not empty and takes so many
characters. -/
def Rule.Takes (rule : Rule) (text : List Char) (length : Nat) : Prop :=
  rule.pattern.program.matchAt? 0 text = some length ∧ 0 < length

theorem Rule.length?_eq_some_iff {rule : Rule} {text : List Char} {length : Nat} :
    rule.length? text = some length ↔ rule.Takes text length := by
  rw [Takes, ← Pattern.find?_eq_some_zero_iff, length?]
  rcases rule.pattern.find? text with _ | ⟨_ | start, _ | stop⟩ <;> simp <;> omega

theorem Rule.length?_eq_none_iff {rule : Rule} {text : List Char} :
    rule.length? text = none ↔ ∀ length, ¬rule.Takes text length := by
  simp only [Option.eq_none_iff_forall_ne_some, ne_eq, length?_eq_some_iff]

theorem Rule.Takes.le {rule : Rule} {text : List Char} {length : Nat} (htakes : rule.Takes text length) :
    length ≤ text.length := by
  have hle := (Program.le_of_matchAt? htakes.1).2
  rwa [Nat.zero_add] at hle

namespace Lexicon

/-- The first rule in order that takes anything from the start of the text has the kind and takes so many characters. -/
def Takes (lexicon : Lexicon) (text : List Char) (kind : TokenKind) (length : Nat) : Prop :=
  ∃ before rule after, lexicon.rules = before ++ rule :: after ∧
    (∀ earlier ∈ before, ∀ other, ¬earlier.Takes text other) ∧ rule.Takes text length ∧ rule.kind = kind

variable {lexicon : Lexicon}

theorem match?_eq_some_iff {text : List Char} {kind : TokenKind} {length : Nat} :
    lexicon.match? text = some (kind, length) ↔ lexicon.Takes text kind length := by
  simp only [match?, List.findSome?_eq_some_iff, Takes, Option.map_eq_some_iff, Option.map_eq_none_iff,
    Rule.length?_eq_some_iff, Rule.length?_eq_none_iff, Prod.mk.injEq]
  constructor
  · rintro ⟨before, rule, after, hrules, ⟨_, htakes, hkind, rfl⟩, hbefore⟩
    exact ⟨before, rule, after, hrules, hbefore, htakes, hkind⟩
  · rintro ⟨before, rule, after, hrules, hbefore, htakes, hkind⟩
    exact ⟨before, rule, after, hrules, ⟨length, htakes, hkind, rfl⟩, hbefore⟩

theorem match?_eq_none_iff {text : List Char} :
    lexicon.match? text = none ↔ ∀ rule ∈ lexicon.rules, ∀ length, ¬rule.Takes text length := by
  simp only [match?, List.findSome?_eq_none_iff, Option.map_eq_none_iff, Rule.length?_eq_none_iff]

/-! ### Tokens one after the other -/

/-- The tokens of every kind that lie between two places of a text. -/
inductive Spans (lexicon : Lexicon) : Source → List Token → Source → Prop
  | nil (source : Source) : Spans lexicon source [] source
  | cons {offset : Nat} {kind : TokenKind} {taken rest : List Char} {later : List Token} {stop : Source}
    (htakes : lexicon.Takes (taken ++ rest) kind taken.length)
    (hlater : Spans lexicon ⟨offset + (String.ofList taken).utf8ByteSize, rest⟩ later stop) :
    Spans lexicon ⟨offset, taken ++ rest⟩ (⟨kind, String.ofList taken, offset⟩ :: later) stop

/-- The tokens follow each other without a gap from one place to another, and none is empty. -/
def Contiguous (start stop : Nat) : List Token → Prop
  | [] => start = stop
  | token :: later => token.position = start ∧ token.text ≠ "" ∧ Contiguous token.stop stop later

variable {source middle stop : Source} {tokens later : List Token} {token : Token}

theorem Takes.ne_nil {taken rest : List Char} {kind : TokenKind}
    (htakes : lexicon.Takes (taken ++ rest) kind taken.length) : taken ≠ [] := by
  obtain ⟨_, _, _, _, _, hrule, _⟩ := htakes
  exact List.length_pos_iff.1 hrule.2

theorem Spans.append (hfirst : lexicon.Spans source tokens middle) (hsecond : lexicon.Spans middle later stop) :
    lexicon.Spans source (tokens ++ later) stop := by
  induction hfirst with
  | nil => exact hsecond
  | cons htakes _ ih => exact .cons htakes (ih hsecond)

theorem Spans.contiguous (hspans : lexicon.Spans source tokens stop) : Contiguous source.offset stop.offset tokens := by
  induction hspans with
  | nil => rfl
  | cons htakes _ ih =>
    refine ⟨rfl, ?_, ih⟩
    rw [ne_eq, ← String.toList_eq_nil_iff, String.toList_ofList]
    exact htakes.ne_nil

theorem Spans.exists_before (hspans : lexicon.Spans source tokens stop) :
    ∃ before, source.rest = before ++ stop.rest ∧
      stop.offset = source.offset + (String.ofList before).utf8ByteSize := by
  induction hspans with
  | nil => exact ⟨[], rfl, rfl⟩
  | @cons offset kind taken rest later stop _ _ ih =>
    obtain ⟨before, hrest, hoffset⟩ := ih
    refine ⟨taken ++ before, ?_, ?_⟩
    · rw [List.append_assoc, ← hrest]
    · rw [hoffset, String.ofList_append, String.utf8ByteSize_append, Nat.add_assoc]

theorem Spans.offset_of_rest_eq_nil {text : String} (hspans : lexicon.Spans (.ofString text) tokens stop)
    (hrest : stop.rest = []) : stop.offset = text.utf8ByteSize := by
  obtain ⟨before, htext, hoffset⟩ := hspans.exists_before
  rw [hrest, List.append_nil, Source.ofString] at htext
  rw [hoffset, ← htext, String.ofList_toList]
  exact Nat.zero_add _

/-- Each token is in the text at its place, and is what is taken there. -/
theorem Spans.exists_of_mem (hspans : lexicon.Spans source tokens stop) (htoken : token ∈ tokens) :
    ∃ before after, source.rest = before ++ token.text.toList ++ after ∧
      token.position = source.offset + (String.ofList before).utf8ByteSize ∧
      lexicon.Takes (token.text.toList ++ after) token.kind token.text.length := by
  induction hspans with
  | nil => cases htoken
  | @cons offset kind taken rest later stop htakes _ ih =>
    rcases List.mem_cons.1 htoken with rfl | hlater
    · refine ⟨[], rest, ?_, rfl, ?_⟩
      · simp
      · simpa using htakes
    · obtain ⟨before, after, hrest, hposition, hfirst⟩ := ih hlater
      refine ⟨taken ++ before, after, ?_, ?_, hfirst⟩
      · rw [List.append_assoc, List.append_assoc, ← List.append_assoc before, ← hrest]
      · rw [hposition, String.ofList_append, String.utf8ByteSize_append, Nat.add_assoc]

theorem Contiguous.lt_stop {start stop : Nat} (hcontiguous : Contiguous start stop tokens) (htoken : token ∈ tokens) :
    start < token.stop := by
  induction tokens generalizing start with
  | nil => cases htoken
  | cons first later ih =>
    obtain ⟨hposition, htext, hlater⟩ := hcontiguous
    have hfirst : start < first.stop := by
      have hpos := Nat.pos_of_ne_zero (mt String.utf8ByteSize_eq_zero_iff.1 htext)
      rw [Token.stop, hposition]
      omega
    rcases List.mem_cons.1 htoken with rfl | hmem
    · exact hfirst
    · exact Nat.lt_trans hfirst (ih hlater hmem)

theorem Contiguous.le {start stop : Nat} (hcontiguous : Contiguous start stop tokens) : start ≤ stop := by
  induction tokens generalizing start with
  | nil => exact Nat.le_of_eq hcontiguous
  | cons first later ih =>
    obtain ⟨rfl, _, hlater⟩ := hcontiguous
    exact Nat.le_trans (Nat.le_add_right _ _) (ih hlater)

theorem Contiguous.start_le {start stop : Nat} (hcontiguous : Contiguous start stop tokens) (htoken : token ∈ tokens) :
    start ≤ token.position := by
  induction tokens generalizing start with
  | nil => cases htoken
  | cons first later ih =>
    obtain ⟨rfl, _, hlater⟩ := hcontiguous
    rcases List.mem_cons.1 htoken with rfl | hmem
    · exact Nat.le_refl _
    · exact Nat.le_trans (Nat.le_add_right _ _) (ih hlater hmem)

/-- The tokens that end no later than a place are those that lead up to it. -/
theorem Contiguous.takeWhile_append {start place stop : Nat} (htokens : Contiguous start place tokens)
    (hlater : Contiguous place stop later) : (tokens ++ later).takeWhile (·.stop ≤ place) = tokens := by
  induction tokens generalizing start with
  | nil =>
    cases later with
    | nil => rfl
    | cons first later =>
      -- whatever follows a place ends later, since no token is empty
      have hlt := hlater.lt_stop (List.mem_cons_self (l := later))
      rw [List.nil_append, List.takeWhile_cons_of_neg (by simpa using hlt)]
  | cons first rest ih =>
    obtain ⟨_, _, hrest⟩ := htokens
    have hle := hrest.le
    rw [List.cons_append, List.takeWhile_cons_of_pos (by simpa using hle), ih hrest]

/-! ### One search -/

theorem spans_of_token? {after : Source} (htoken : lexicon.token? source = some (token, after))
    (hlater : lexicon.Spans after later stop) : lexicon.Spans source (token :: later) stop := by
  obtain ⟨⟨kind, length⟩, hmatch, heq⟩ := Option.map_eq_some_iff.1 htoken
  cases heq
  obtain ⟨offset, rest⟩ := source
  have htakes := match?_eq_some_iff.1 hmatch
  have hlength : (rest.take length).length = length := by
    obtain ⟨_, _, _, _, _, hrule, _⟩ := htakes
    exact List.length_take_of_le hrule.le
  have hspans : lexicon.Spans ⟨offset, rest.take length ++ rest.drop length⟩ _ stop :=
    .cons (by rwa [List.take_append_drop, hlength]) hlater
  rwa [List.take_append_drop] at hspans

end Lexicon

/-- The tokens that a search has gone over: those that it has passed over, and the one that it has returned, if any. -/
def Advance.spans (advance : Advance) : List Token :=
  match advance.answer with
  | .token found => advance.passed ++ [found]
  | .finished | .stuck _ => advance.passed

theorem Advance.spans_cons (token : Token) (passed : List Token) (answer : Answer) (source : Source) :
    spans ⟨token :: passed, answer, source⟩ = token :: spans ⟨passed, answer, source⟩ := by
  cases answer <;> rfl

namespace Lexicon

variable {lexicon : Lexicon} {source : Source} {token : Token}

theorem spans_next (lexicon : Lexicon) (source : Source) :
    lexicon.Spans source (lexicon.next source).spans (lexicon.next source).source := by
  fun_induction next lexicon source with
  | case1 source => exact .nil source
  | case2 source => exact .nil source
  | case3 source _ token after htoken _ _ advance ih =>
    rw [Advance.spans_cons]
    exact spans_of_token? htoken ih
  | case4 source _ token after htoken => exact spans_of_token? htoken (.nil after)

/-- A token that is returned ends where the search does. -/
theorem offset_of_next_token {token : Token} (hanswer : (lexicon.next source).answer = .token token) :
    (lexicon.next source).source.offset = token.stop := by
  fun_induction next lexicon source with
  | case1 | case2 => cases hanswer
  | case3 source _ _ _ _ _ _ _ ih => exact ih hanswer
  | case4 source _ _ _ htoken =>
    cases hanswer
    obtain ⟨_, _, heq⟩ := Option.map_eq_some_iff.1 htoken
    cases heq
    rfl

theorem rest_of_next_finished (hanswer : (lexicon.next source).answer = .finished) :
    (lexicon.next source).source.rest = [] := by
  fun_induction next lexicon source with
  | case1 source hrest => exact hrest
  | case2 | case4 => cases hanswer
  | case3 source _ _ _ _ _ _ _ ih => exact ih hanswer

/-- A search is stuck before text of which no rule takes anything, and its reason is the place where it ends. -/
theorem next_stuck {reason : Stuck} (hanswer : (lexicon.next source).answer = .stuck reason) :
    reason = ⟨(lexicon.next source).source.offset, String.ofList (lexicon.next source).source.rest⟩ ∧
      (lexicon.next source).source.rest ≠ [] ∧ lexicon.token? (lexicon.next source).source = none := by
  fun_induction next lexicon source with
  | case1 | case4 => cases hanswer
  | case2 source hrest htoken =>
    cases hanswer
    exact ⟨rfl, hrest, htoken⟩
  | case3 source _ _ _ _ _ _ _ ih => exact ih hanswer

/-- A search that has returned no token ends where the next search finds the same. -/
theorem next_next (hanswer : ∀ token, (lexicon.next source).answer ≠ .token token) :
    lexicon.next (lexicon.next source).source =
      ⟨[], (lexicon.next source).answer, (lexicon.next source).source⟩ := by
  cases hnext : (lexicon.next source).answer with
  | token found => exact absurd hnext (hanswer found)
  | finished => rw [next_of_nil (rest_of_next_finished hnext)]
  | stuck reason =>
    obtain ⟨rfl, hrest, htoken⟩ := next_stuck hnext
    rw [next_of_stuck hrest htoken]

/-- The rest of the text is used up exactly if skipped tokens make it up. -/
theorem next_finished_iff :
    (lexicon.next source).answer = .finished ↔
      ∃ skips stop, lexicon.Spans source skips stop ∧ stop.rest = [] ∧ ∀ skip ∈ skips, skip.kind = lexicon.skipped := by
  constructor
  · intro hanswer
    refine ⟨_, _, spans_next lexicon source, rest_of_next_finished hanswer, ?_⟩
    rw [Advance.spans, hanswer]
    exact kind_of_mem_passed lexicon source
  · rintro ⟨skips, stop, hspans, hrest, hskips⟩
    induction hspans with
    | nil => rw [next_of_nil hrest]
    | @cons offset kind taken rest later stop htakes _ ih =>
      obtain ⟨hkind, hlater⟩ := List.forall_mem_cons.1 hskips
      have htoken := token?_of_match? offset (match?_eq_some_iff.2 htakes)
      rw [next_of_token? (List.append_ne_nil_of_left_ne_nil htakes.ne_nil _) htoken, if_pos hkind]
      exact ih hrest hlater

/-! ### A reading -/

theorem exists_spans_read (lexicon : Lexicon) (source : Source) :
    ∃ stop, lexicon.Spans source (lexicon.read source).found stop ∧
      ((lexicon.read source).stuck = none → stop.rest = []) := by
  fun_induction read lexicon source with
  | case1 source _ hanswer =>
    have hspans := spans_next lexicon source
    rw [Advance.spans, hanswer] at hspans
    exact ⟨_, hspans, fun _ => rest_of_next_finished hanswer⟩
  | case2 source _ reason hanswer =>
    have hspans := spans_next lexicon source
    rw [Advance.spans, hanswer] at hspans
    exact ⟨_, hspans, nofun⟩
  | case3 source _ token hanswer _ later ih =>
    have hspans := spans_next lexicon source
    rw [Advance.spans, hanswer] at hspans
    obtain ⟨stop, hlater, hend⟩ := ih
    have hall := hspans.append hlater
    simp only [List.append_assoc, List.singleton_append] at hall
    exact ⟨stop, hall, hend⟩

/-- A text that is read to its end is covered by its tokens. -/
theorem contiguous_read {text : String} (hend : (lexicon.read (.ofString text)).stuck = none) :
    Contiguous 0 text.utf8ByteSize (lexicon.read (.ofString text)).found := by
  obtain ⟨stop, hspans, hrest⟩ := exists_spans_read lexicon (.ofString text)
  rw [← hspans.offset_of_rest_eq_nil (hrest hend)]
  exact hspans.contiguous

/-! ### Any number of searches -/

/-- Where a run has come to after so many searches. -/
def placeAfter (lexicon : Lexicon) (searches : Nat) (source : Source) : Source :=
  (fun place => (lexicon.next place).source)^[searches] source

/-- What a run finds in its next search, after so many. -/
def searchAfter (lexicon : Lexicon) (searches : Nat) (source : Source) : Advance :=
  lexicon.next (lexicon.placeAfter searches source)

/-- All tokens that the first so many searches have gone over. -/
def spansOf (lexicon : Lexicon) (searches : Nat) (source : Source) : List Token :=
  (List.range searches).flatMap fun earlier => (lexicon.searchAfter earlier source).spans

theorem placeAfter_succ (lexicon : Lexicon) (searches : Nat) (source : Source) :
    lexicon.placeAfter (searches + 1) source = (lexicon.searchAfter searches source).source :=
  Function.iterate_succ_apply' _ searches source

theorem spansOf_succ (lexicon : Lexicon) (searches : Nat) (source : Source) :
    lexicon.spansOf (searches + 1) source =
      lexicon.spansOf searches source ++ (lexicon.searchAfter searches source).spans := by
  rw [spansOf, List.range_succ, List.flatMap_append, List.flatMap_singleton, spansOf]

theorem spans_of_searches (lexicon : Lexicon) (searches : Nat) (source : Source) :
    lexicon.Spans source (lexicon.spansOf searches source) (lexicon.placeAfter searches source) := by
  induction searches with
  | zero => exact .nil source
  | succ searches ih =>
    have hsearch := spans_next lexicon (lexicon.placeAfter searches source)
    rw [← searchAfter, ← placeAfter_succ] at hsearch
    rw [spansOf_succ]
    exact ih.append hsearch

/-- Once a search has returned no token, the run stays where it is. -/
theorem searchAfter_of_le {searches later : Nat} (hle : searches ≤ later)
    (hanswer : ∀ token, (lexicon.searchAfter searches source).answer ≠ .token token) :
    (lexicon.searchAfter later source).answer = (lexicon.searchAfter searches source).answer ∧
      lexicon.placeAfter (later + 1) source = lexicon.placeAfter (searches + 1) source := by
  have hagain := next_next hanswer
  rw [← searchAfter, ← placeAfter_succ] at hagain
  obtain ⟨more, rfl⟩ := Nat.exists_eq_add_of_le hle
  induction more with
  | zero => exact ⟨rfl, rfl⟩
  | succ more ih =>
    have hplace := (ih (Nat.le_add_right _ _)).2
    have hsearch : lexicon.searchAfter (searches + more + 1) source = _ := hplace ▸ hagain
    rw [← Nat.add_assoc, placeAfter_succ lexicon (searches + more + 1), hsearch]
    exact ⟨rfl, hplace⟩

theorem searchAfter_succ (lexicon : Lexicon) (searches : Nat) (source : Source) :
    lexicon.searchAfter (searches + 1) source = lexicon.searchAfter searches (lexicon.next source).source :=
  rfl

/-- After so many tokens, a reading goes on where the searches for them have come to. -/
theorem found_read_of_searches {searches : Nat}
    (hfound : ∀ earlier < searches, ∃ token, (lexicon.searchAfter earlier source).answer = .token token) :
    (lexicon.read source).found =
      lexicon.spansOf searches source ++ (lexicon.read (lexicon.placeAfter searches source)).found := by
  induction searches with
  | zero => rfl
  | succ searches ih =>
    obtain ⟨token, hanswer⟩ := hfound searches (Nat.lt_succ_self _)
    have hlater : (lexicon.read (lexicon.placeAfter searches source)).found =
        (lexicon.searchAfter searches source).spans ++
          (lexicon.read (lexicon.placeAfter (searches + 1) source)).found := by
      rw [read_eq, ← searchAfter, ← placeAfter_succ, Advance.spans, hanswer]
      simp
    rw [ih fun earlier hearlier => hfound earlier (Nat.lt_succ_of_lt hearlier), hlater, spansOf_succ, List.append_assoc]

/-- A reading ends with the first search that returns no token. -/
theorem found_read_of_last_search {searches : Nat}
    (hfound : ∀ earlier < searches, ∃ token, (lexicon.searchAfter earlier source).answer = .token token)
    (hlast : ∀ token, (lexicon.searchAfter searches source).answer ≠ .token token) :
    (lexicon.read source).found = lexicon.spansOf (searches + 1) source := by
  rw [found_read_of_searches hfound, spansOf_succ, read_eq, ← searchAfter, Advance.spans]
  cases hanswer : (lexicon.searchAfter searches source).answer with
  | token found => exact absurd hanswer (hlast found)
  | finished => rfl
  | stuck reason => rfl

/-- A token that a reading keeps is returned by one of the searches, and those before it return tokens, too. -/
theorem exists_search_of_mem_kept (htoken : token ∈ lexicon.kept (lexicon.read source)) :
    ∃ searches, (∀ earlier ≤ searches, ∃ found, (lexicon.searchAfter earlier source).answer = .token found) ∧
      (lexicon.searchAfter searches source).answer = .token token := by
  rw [← tokens_stream] at htoken
  fun_induction stream lexicon source with
  | case1 | case2 => cases htoken
  | case3 source first hanswer _ later ih =>
    rcases List.mem_cons.1 htoken with rfl | hlater
    · refine ⟨0, fun earlier hearlier => ?_, hanswer⟩
      obtain rfl := Nat.le_zero.1 hearlier
      exact ⟨_, hanswer⟩
    · obtain ⟨searches, hfound, htoken⟩ := ih hlater
      refine ⟨searches + 1, fun earlier hearlier => ?_, htoken⟩
      cases earlier with
      | zero => exact ⟨first, hanswer⟩
      | succ earlier => exact hfound earlier (Nat.le_of_succ_le_succ hearlier)

/-- Each token that is returned takes at least one character from what remains. -/
theorem exists_last_search (lexicon : Lexicon) (source : Source) :
    ∃ searches ≤ source.rest.length,
      (∀ earlier < searches, ∃ token, (lexicon.searchAfter earlier source).answer = .token token) ∧
      ∀ token, (lexicon.searchAfter searches source).answer ≠ .token token := by
  induction hlength : source.rest.length using Nat.strongRecOn generalizing source with
  | ind length ih =>
    by_cases hanswer : ∃ token, (lexicon.next source).answer = .token token
    · obtain ⟨found, hfound⟩ := hanswer
      have hshorter := length_lt_of_next hfound
      obtain ⟨searches, hle, hbefore, hlast⟩ := ih _ (hlength ▸ hshorter) (lexicon.next source).source rfl
      refine ⟨searches + 1, by omega, fun earlier hearlier => ?_, ?_⟩
      · cases earlier with
        | zero => exact ⟨found, hfound⟩
        | succ earlier =>
          rw [searchAfter_succ]
          exact hbefore earlier (Nat.lt_of_succ_lt_succ hearlier)
      · rw [searchAfter_succ]
        exact hlast
    · exact ⟨0, Nat.zero_le _, by simp, fun token hfound => hanswer ⟨token, hfound⟩⟩

theorem length_le_utf8ByteSize (text : List Char) : text.length ≤ (String.ofList text).utf8ByteSize := by
  induction text with
  | nil => exact Nat.le_refl 0
  | cons c rest ih =>
    have hcharacter : (String.ofList [c]).utf8ByteSize = c.utf8Size := by simp
    have hpos := c.utf8Size_pos
    rw [← List.singleton_append, String.ofList_append, String.utf8ByteSize_append, hcharacter, List.length_append,
      List.length_singleton]
    omega

/-! ### A run over a whole text -/

/-- How the searches of a lexicon go through a text from its start. What a run has come to after `searches` searches is
`placeAfter searches`, and what it finds next `searchAfter searches`. -/
structure GoesThrough (lexicon : Lexicon) (text : String) : Prop where
  /-- The tokens of all searches, those that were passed over included, follow each other from the start of the text to
  where the run has come to. -/
  contiguous : ∀ searches,
    Contiguous 0 (lexicon.placeAfter searches (.ofString text)).offset (lexicon.spansOf searches (.ofString text))
  /-- Each of them is in the text at its place, and is what the first rule takes that takes anything there. -/
  taken : ∀ searches, ∀ span ∈ lexicon.spansOf searches (.ofString text), ∃ before after : String,
    text = before ++ span.text ++ after ∧ span.position = before.utf8ByteSize ∧
      lexicon.Takes (span.text ++ after).toList span.kind span.text.length
  /-- What remains is the text from where the run has come to. -/
  remains : ∀ searches, ∃ before : String,
    text = before ++ String.ofList (lexicon.placeAfter searches (.ofString text)).rest ∧
      (lexicon.placeAfter searches (.ofString text)).offset = before.utf8ByteSize
  passed : ∀ searches, ∀ skip ∈ (lexicon.searchAfter searches (.ofString text)).passed, skip.kind = lexicon.skipped
  returned : ∀ searches token, (lexicon.searchAfter searches (.ofString text)).answer = .token token →
    token.kind ≠ lexicon.skipped ∧ token ∈ lexicon.spansOf (searches + 1) (.ofString text) ∧
      (lexicon.placeAfter (searches + 1) (.ofString text)).offset = token.stop
  /-- A search finds the end of the text exactly if skipped tokens make up what remains, if anything does. -/
  finished_iff : ∀ searches, (lexicon.searchAfter searches (.ofString text)).answer = .finished ↔
    ∃ skips stop, lexicon.Spans (lexicon.placeAfter searches (.ofString text)) skips stop ∧ stop.rest = [] ∧
      ∀ skip ∈ skips, skip.kind = lexicon.skipped
  finished : ∀ searches, (lexicon.searchAfter searches (.ofString text)).answer = .finished →
    (lexicon.placeAfter (searches + 1) (.ofString text)).offset = text.utf8ByteSize
  /-- A search is stuck at the place that it has come to, where something remains of which no rule takes anything. -/
  stuck : ∀ searches reason, (lexicon.searchAfter searches (.ofString text)).answer = .stuck reason →
    reason.position = (lexicon.placeAfter (searches + 1) (.ofString text)).offset ∧
      reason.remaining = String.ofList (lexicon.placeAfter (searches + 1) (.ofString text)).rest ∧
      reason.remaining ≠ "" ∧ ∀ rule ∈ lexicon.rules, ∀ length, ¬rule.Takes reason.remaining.toList length
  /-- After a search that has returned no token, every search finds the same and the run does not move. -/
  stays : ∀ searches, (∀ token, (lexicon.searchAfter searches (.ofString text)).answer ≠ .token token) →
    ∀ later ≥ searches, (lexicon.searchAfter later (.ofString text)).answer =
        (lexicon.searchAfter searches (.ofString text)).answer ∧
      lexicon.placeAfter (later + 1) (.ofString text) = lexicon.placeAfter (searches + 1) (.ofString text)
  /-- There are no more tokens than bytes. -/
  ends : ∃ searches ≤ text.utf8ByteSize,
    (∀ earlier < searches, ∃ token, (lexicon.searchAfter earlier (.ofString text)).answer = .token token) ∧
      ∀ token, (lexicon.searchAfter searches (.ofString text)).answer ≠ .token token

theorem goesThrough (lexicon : Lexicon) (text : String) : lexicon.GoesThrough text where
  contiguous searches := (spans_of_searches lexicon searches (.ofString text)).contiguous
  taken := by
    intro searches span hspan
    obtain ⟨before, after, htext, hposition, htakes⟩ :=
      (spans_of_searches lexicon searches (.ofString text)).exists_of_mem hspan
    refine ⟨String.ofList before, String.ofList after, ?_, ?_, ?_⟩
    · apply String.toList_injective
      simpa [Source.ofString] using htext
    · rwa [Source.ofString, Nat.zero_add] at hposition
    · simpa using htakes
  remains := by
    intro searches
    obtain ⟨before, htext, hoffset⟩ := (spans_of_searches lexicon searches (.ofString text)).exists_before
    refine ⟨String.ofList before, ?_, ?_⟩
    · apply String.toList_injective
      simpa [Source.ofString] using htext
    · rwa [Source.ofString, Nat.zero_add] at hoffset
  passed searches := kind_of_mem_passed lexicon _
  returned := by
    intro searches token hanswer
    refine ⟨kind_of_next lexicon _ hanswer, ?_, ?_⟩
    · rw [spansOf_succ, Advance.spans, hanswer]
      simp
    · rw [placeAfter_succ]
      exact offset_of_next_token hanswer
  finished_iff searches := next_finished_iff
  finished := by
    intro searches hanswer
    refine (spans_of_searches lexicon (searches + 1) (.ofString text)).offset_of_rest_eq_nil ?_
    rw [placeAfter_succ]
    exact rest_of_next_finished hanswer
  stuck := by
    intro searches reason hanswer
    obtain ⟨rfl, hrest, htoken⟩ := next_stuck hanswer
    rw [placeAfter_succ]
    refine ⟨rfl, rfl, ?_, ?_⟩
    · rwa [ne_eq, ← String.toList_eq_nil_iff, String.toList_ofList]
    · rw [String.toList_ofList]
      exact match?_eq_none_iff.1 (Option.map_eq_none_iff.1 htoken)
  stays searches hanswer later hle := searchAfter_of_le hle hanswer
  ends := by
    obtain ⟨searches, hle, hlast⟩ := exists_last_search lexicon (.ofString text)
    have hbytes := length_le_utf8ByteSize text.toList
    rw [String.ofList_toList] at hbytes
    exact ⟨searches, Nat.le_trans hle hbytes, hlast⟩

end Lexicon

end Pluck
