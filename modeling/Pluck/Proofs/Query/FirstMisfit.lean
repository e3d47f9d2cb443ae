import Mathlib.Data.List.Induction
import Pluck.Proofs.Query.Failing

/-!
# The first token that does not fit

Wherever a reading comes to, the tokens that it has gone over are the beginning of a query, and it can come there with
no others (`isBeginning_iff`). So the token at which it halts is the first one that no query has after those before it.
Nothing later takes part in the error, neither the tokens that follow nor text in which no token begins, and it is only
where all tokens fit that such text, or the end of the text, is reported. `ofReading_reports_first` says this for every
lexicon and any text, with the error for each place.
-/

namespace Pluck.Query

open Grammar Relation

variable {stuck : Option Stuck} {place next : Place} {tokens before later : List Token} {token : Token} {due : Due}
  {failure : Failure}

/-! ### More tokens after a place -/

def Place.followedBy (place : Place) (more : List Token) : Place :=
  ⟨place.due, place.rest ++ more⟩

def Grammar.NameAt.followedBy {rest : List Token} (part : NameAt tokens rest) (more : List Token) :
    NameAt (tokens ++ more) (rest ++ more) :=
  match part with
  | .written hkind => .written hkind
  | .omitted hkind => .omitted hkind

theorem Step.followedBy (hstep : Step place next) (more : List Token) :
    Step (place.followedBy more) (next.followedBy more) := by
  cases hstep with
  | name part => exact .name (part.followedBy more)
  | separator hkind => exact .separator hkind
  | assign hkind => exact .assign hkind
  | key part => exact .key (part.followedBy more)
  | join hkind => exact .join hkind

theorem Comes.followedBy (hcomes : Comes tokens place) (more : List Token) :
    Comes (tokens ++ more) (place.followedBy more) := by
  induction hcomes with
  | refl => exact .refl
  | tail _ hstep ih => exact ih.tail (hstep.followedBy more)

theorem Halts.of_cons (hhalts : Halts stuck ⟨due, token :: tokens⟩ failure) (other : Option Stuck) (later : List Token) :
    Halts other ⟨due, token :: later⟩ failure := by
  cases hhalts with
  | notName hdue hkind => exact .notName hdue hkind
  | notAssign hkind => exact .notAssign hkind
  | notJoin hkind => exact .notJoin hkind

theorem exists_last_place (stuck : Option Stuck) (tokens : List Token) :
    ∃ place, Comes tokens place ∧ (place.rest = [] ∨ ∃ failure, Halts stuck place failure) := by
  cases hread : readClauses stuck tokens with
  | ok clauses => exact ⟨_, (exists_readClauses_iff.1 ⟨clauses, hread⟩).2, .inl rfl⟩
  | error failure =>
    obtain ⟨place, hcomes, hhalts⟩ := halts_of_readClauses hread
    exact ⟨place, hcomes, .inr ⟨failure, hhalts⟩⟩

/-- After it has halted a reading comes nowhere, and so it has been everywhere before. -/
theorem Halts.steps_of_comes (hhalts : Halts stuck place failure) (hplace : Comes tokens place)
    (hnext : Comes tokens next) : ReflTransGen Step next place := by
  rcases hplace.total_of_right_unique rightUnique_step hnext with hsteps | hsteps
  · rcases hsteps.cases_head with rfl | ⟨_, hstep, _⟩
    · exact .refl
    · exact absurd hstep (hhalts.not_step _)
  · exact hsteps

/-! ### The beginning of a query -/

/-- The tokens, with others after them, can make up a query. -/
def IsBeginning (tokens : List Token) : Prop :=
  ∃ more, Nonempty (Derivation (tokens ++ more))

/-- Tokens with which a query can end where this is due. -/
def Due.remainder : Due → List Token
  | name | assign => [⟨.assign, "=", 0⟩, ⟨.name, "", 0⟩]
  | key => [⟨.name, "", 0⟩]
  | join => []

theorem steps_remainder (due : Due) : ReflTransGen Step ⟨due, due.remainder⟩ ⟨.join, []⟩ := by
  have hkey : ReflTransGen Step ⟨.key, Due.key.remainder⟩ ⟨.join, []⟩ := .single (.key (.written rfl))
  have hassign : ReflTransGen Step ⟨.assign, Due.assign.remainder⟩ ⟨.join, []⟩ := .head (.assign rfl) hkey
  cases due with
  | name => exact .head (.name (.omitted rfl)) hassign
  | assign => exact hassign
  | key => exact hkey
  | join => exact .refl

theorem nonempty_derivation_iff : Nonempty (Derivation tokens) ↔ Comes tokens ⟨.join, []⟩ := by
  constructor
  · rintro ⟨derivation⟩
    exact comes_of_derivation derivation
  · intro hend
    obtain ⟨clauses, hread⟩ := exists_readClauses_iff.2 ⟨rfl, hend⟩
    obtain ⟨_, derivation, _⟩ := exists_derivation hread
    exact ⟨derivation⟩

theorem isBeginning_iff : IsBeginning tokens ↔ ∃ due, Comes tokens ⟨due, []⟩ := by
  constructor
  · rintro ⟨more, hderivation⟩
    have hend : Comes (tokens ++ more) ⟨.join, []⟩ := nonempty_derivation_iff.1 hderivation
    obtain ⟨⟨due, rest⟩, hcomes, hlast⟩ := exists_last_place none tokens
    cases rest with
    | nil => exact ⟨due, hcomes⟩
    | cons token rest =>
      -- a token at which the reading halts is still there when others follow
      obtain ⟨failure, hhalts⟩ := hlast.resolve_left (List.cons_ne_nil token rest)
      have hplace := (hcomes.followedBy more).unique hend (hhalts.of_cons none (rest ++ more)).not_step not_step_end
      cases hplace
  · rintro ⟨due, hcomes⟩
    refine ⟨due.remainder, nonempty_derivation_iff.2 ?_⟩
    exact (hcomes.followedBy due.remainder).trans (steps_remainder due)

theorem isBeginning_nil : IsBeginning [] :=
  isBeginning_iff.2 ⟨.name, .refl⟩

/-! ### A token that does not fit -/

/-- No query has this token after those before it, which are the beginning of one. -/
def Misfits (before : List Token) (token : Token) : Prop :=
  IsBeginning before ∧ ¬IsBeginning (before ++ [token])

theorem exists_misfit (htokens : ¬IsBeginning tokens) :
    ∃ before token later, tokens = before ++ token :: later ∧ Misfits before token := by
  induction tokens using List.reverseRecOn with
  | nil => exact absurd isBeginning_nil htokens
  | append_singleton front token ih =>
    by_cases hfront : IsBeginning front
    · exact ⟨front, token, [], rfl, hfront, htokens⟩
    · obtain ⟨before, first, later, rfl, hfirst⟩ := ih hfront
      exact ⟨before, first, later ++ [token], by simp, hfirst⟩

/-- A reading halts at a token that does not fit, with a failure that is the same whatever follows. -/
theorem Misfits.exists_halts (hmisfits : Misfits before token) :
    ∃ due failure, ∀ stuck later,
      Comes (before ++ token :: later) ⟨due, token :: later⟩ ∧ Halts stuck ⟨due, token :: later⟩ failure := by
  obtain ⟨hbefore, hnot⟩ := hmisfits
  obtain ⟨start, hstart⟩ := isBeginning_iff.1 hbefore
  obtain ⟨⟨due, rest⟩, hcomes, hlast⟩ := exists_last_place none (before ++ [token])
  have hrest : rest ≠ [] := by
    rintro rfl
    exact hnot (isBeginning_iff.2 ⟨due, hcomes⟩)
  obtain ⟨failure, hhalts⟩ := hlast.resolve_left hrest
  have hsuffix : rest <:+ [token] := suffix_of_steps (hhalts.steps_of_comes hcomes (hstart.followedBy [token]))
  obtain rfl : rest = [token] := by
    rw [List.suffix_cons_iff, List.suffix_nil] at hsuffix
    exact hsuffix.resolve_right hrest
  refine ⟨due, failure, fun stuck later => ⟨?_, hhalts.of_cons stuck later⟩⟩
  rw [List.append_cons]
  exact hcomes.followedBy later

/-- The token at which a reading halts does not fit. -/
theorem Halts.exists_misfit (hhalts : Halts stuck ⟨due, token :: later⟩ failure)
    (hcomes : Comes tokens ⟨due, token :: later⟩) :
    ∃ before, tokens = before ++ token :: later ∧ Misfits before token := by
  have htokens : ¬IsBeginning tokens := by
    intro hbeginning
    obtain ⟨end_, hend⟩ := isBeginning_iff.1 hbeginning
    have hsuffix := suffix_of_steps (hhalts.steps_of_comes hcomes hend)
    simp at hsuffix
  obtain ⟨before, first, rest, rfl, hfirst⟩ := Query.exists_misfit htokens
  obtain ⟨other, cause, hhere⟩ := hfirst.exists_halts
  obtain ⟨hother, hcause⟩ := hhere stuck rest
  cases hcomes.unique hother hhalts.not_step hcause.not_step
  exact ⟨before, rfl, hfirst⟩

/-! ### The error of a text -/

/-- Reading as a query what the searches of a lexicon return fails with the error. -/
def FailsWith (lexicon : Lexicon) (source : Source) (error : ParseError) : Prop :=
  ∃ noticed, ofReading lexicon (lexicon.read source) = .error ⟨error, noticed⟩

variable {lexicon : Lexicon} {source : Source} {error : ParseError}

theorem failsWith_iff :
    FailsWith lexicon source error ↔ ∃ place noticed, Comes (lexicon.stream source).tokens place ∧
      Halts (lexicon.stream source).stuck place ⟨error, noticed⟩ := by
  simp only [FailsWith, ofReading, map_eq_error_iff, readClauses_eq_error_iff, ← Lexicon.stuck_stream,
    ← Lexicon.tokens_stream]
  exact exists_comm

theorem kind_ne_of_mem_stream (htoken : token ∈ (lexicon.stream source).tokens) : token.kind ≠ lexicon.skipped := by
  rw [Lexicon.tokens_stream, Lexicon.kept, List.mem_filter] at htoken
  simpa using htoken.2

/-- What is reported when the tokens that a lexicon returns are not a query. -/
structure ReportsFirst (lexicon : Lexicon) (source : Source) : Prop where
  /-- That no token begins somewhere is reported exactly if the tokens before it fit, with the reason of the search. -/
  stuck : ∀ reason, FailsWith lexicon source (.stuck reason) ↔
    (lexicon.stream source).stuck = some reason ∧ IsBeginning (lexicon.stream source).tokens
  /-- A token that does not fit is reported, and in the same way whatever comes after it, also if no token does. -/
  misfit : ∀ before token later, (lexicon.stream source).tokens = before ++ token :: later → Misfits before token →
    ∃ error, ((∃ expected, error = .unexpectedToken token.stop token.kind expected) ∨ error = .unexpectedEnd .assign) ∧
      ∀ other place after, (other.stream place).tokens = before ++ token :: after → FailsWith other place error
  /-- A token is called unexpected if it is the first that does not fit and stands where a comma is due, or where a name
  is due and it is of the kind for blanks. Such a token is returned only if another kind is skipped. -/
  unexpectedToken : ∀ position found expected, FailsWith lexicon source (.unexpectedToken position found expected) ↔
    ∃ before token later, (lexicon.stream source).tokens = before ++ token :: later ∧ Misfits before token ∧
      position = token.stop ∧ found = token.kind ∧
      (expected = .join ∧ token.kind ≠ .join ∧ Comes (lexicon.stream source).tokens ⟨.join, token :: later⟩ ∨
        expected = .name ∧ token.kind = .skip ∧ lexicon.skipped ≠ .skip ∧
          (Comes (lexicon.stream source).tokens ⟨.name, token :: later⟩ ∨
            Comes (lexicon.stream source).tokens ⟨.key, token :: later⟩))
  /-- A name is called missing if the text ends where one is due. -/
  noName : FailsWith lexicon source (.unexpectedEnd .name) ↔ (lexicon.stream source).stuck = none ∧
    (Comes (lexicon.stream source).tokens ⟨.name, []⟩ ∨ Comes (lexicon.stream source).tokens ⟨.key, []⟩)
  /-- An equals sign is called missing if after a name of a path the text ends, or the first token that does not fit is
  neither an equals sign nor a full stop. -/
  noAssign : FailsWith lexicon source (.unexpectedEnd .assign) ↔
    ((lexicon.stream source).stuck = none ∧ Comes (lexicon.stream source).tokens ⟨.assign, []⟩) ∨
      ∃ before token later, (lexicon.stream source).tokens = before ++ token :: later ∧ Misfits before token ∧
        Comes (lexicon.stream source).tokens ⟨.assign, token :: later⟩ ∧
        token.kind ≠ .separator ∧ token.kind ≠ .assign
  /-- Nothing else is called missing. -/
  missing : ∀ expected, FailsWith lexicon source (.unexpectedEnd expected) → expected = .name ∨ expected = .assign

theorem ofReading_reports_first (lexicon : Lexicon) (source : Source) : ReportsFirst lexicon source where
  stuck reason := by
    rw [failsWith_iff, isBeginning_iff]
    constructor
    · rintro ⟨place, noticed, hcomes, hhalts⟩
      cases hhalts with
      | stuck hstuck => exact ⟨hstuck, _, hcomes⟩
    · rintro ⟨hstuck, due, hcomes⟩
      exact ⟨_, _, hcomes, .stuck hstuck⟩
  misfit before token later htokens hmisfits := by
    obtain ⟨due, ⟨error, noticed⟩, hhere⟩ := hmisfits.exists_halts
    refine ⟨error, ?_, fun other place after hother => ?_⟩
    · obtain ⟨_, hhalts⟩ := hhere none later
      cases hhalts with
      | notName | notJoin => exact .inl ⟨_, rfl⟩
      | notAssign => exact .inr rfl
    · obtain ⟨hcomes, hhalts⟩ := hhere (other.stream place).stuck after
      rw [← hother] at hcomes
      exact failsWith_iff.2 ⟨_, _, hcomes, hhalts⟩
  unexpectedToken position found expected := by
    rw [failsWith_iff]
    constructor
    · rintro ⟨place, noticed, hcomes, hhalts⟩
      have hhere := hhalts
      cases hhere with
      | @notName due token later hdue hkind =>
        obtain ⟨before, htokens, hmisfits⟩ := hhalts.exists_misfit hcomes
        have htoken : token ∈ (lexicon.stream source).tokens :=
          htokens ▸ List.mem_append_right before List.mem_cons_self
        refine ⟨before, token, later, htokens, hmisfits, rfl, rfl, .inr ⟨rfl, hkind, ?_, ?_⟩⟩
        · intro hskipped
          exact kind_ne_of_mem_stream htoken (hkind.trans hskipped.symm)
        · rcases hdue with rfl | rfl
          · exact .inl hcomes
          · exact .inr hcomes
      | @notJoin token later hkind =>
        obtain ⟨before, htokens, hmisfits⟩ := hhalts.exists_misfit hcomes
        exact ⟨before, token, later, htokens, hmisfits, rfl, rfl, .inl ⟨rfl, hkind, hcomes⟩⟩
    · rintro ⟨before, token, later, htokens, hmisfits, rfl, rfl, ⟨rfl, hkind, hcomes⟩ | ⟨rfl, hkind, _, hcomes⟩⟩
      · exact ⟨_, _, hcomes, .notJoin hkind⟩
      · rcases hcomes with hcomes | hcomes
        · exact ⟨_, _, hcomes, .notName (.inl rfl) hkind⟩
        · exact ⟨_, _, hcomes, .notName (.inr rfl) hkind⟩
  noName := by
    rw [failsWith_iff]
    constructor
    · rintro ⟨place, noticed, hcomes, hhalts⟩
      cases hhalts with
      | noName hdue hend =>
        rcases hdue with rfl | rfl
        · exact ⟨hend, .inl hcomes⟩
        · exact ⟨hend, .inr hcomes⟩
    · rintro ⟨hend, hcomes | hcomes⟩
      · exact ⟨_, _, hcomes, .noName (.inl rfl) hend⟩
      · exact ⟨_, _, hcomes, .noName (.inr rfl) hend⟩
  noAssign := by
    rw [failsWith_iff]
    constructor
    · rintro ⟨place, noticed, hcomes, hhalts⟩
      have hhere := hhalts
      cases hhere with
      | noAssign hend => exact .inl ⟨hend, hcomes⟩
      | notAssign hkind =>
        obtain ⟨before, htokens, hmisfits⟩ := hhalts.exists_misfit hcomes
        exact .inr ⟨before, _, _, htokens, hmisfits, hcomes, hkind⟩
    · rintro (⟨hend, hcomes⟩ | ⟨before, token, later, _, _, hcomes, hkind⟩)
      · exact ⟨_, _, hcomes, .noAssign hend⟩
      · exact ⟨_, _, hcomes, .notAssign hkind⟩
  missing expected := by
    rw [failsWith_iff]
    rintro ⟨place, noticed, _, hhalts⟩
    cases hhalts with
    | noName => exact .inl rfl
    | noAssign | notAssign => exact .inr rfl

end Pluck.Query
