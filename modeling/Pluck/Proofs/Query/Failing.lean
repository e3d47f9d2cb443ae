import Mathlib.Logic.Relation
import Pluck.Proofs.Query.Grammar

/-!
# Where a reading fails

Reading tokens as a query goes from place to place among them. At each place it is settled what is due: a name of a
path, what follows such a name, a key, or a comma. `Step` is one step of this, over a name, which may be omitted, or over
one reserved token, and `Comes` any number of steps. There is never a choice between two steps, so that a reading has
one last place, and it fails exactly if it halts there (`readClauses_eq_error_iff`).

The failure is settled by what is due at this place and by the first of the tokens that are left, at which it is
noticed. `FitsIn` says how the error and the tokens go together, whatever the place is.
-/

namespace Pluck.Query

open Grammar Relation

theorem map_eq_error_iff {ε α β : Type} {result : Except ε α} {f : α → β} {error : ε} :
    result.map f = .error error ↔ result = .error error := by
  cases result <;> simp [Except.map]

/-! ### Places -/

/-- What is due at a place among the tokens of a query. -/
inductive Due
  /-- A name of a path. -/
  | name
  /-- The equals sign, or a full stop and another name. -/
  | assign
  | key
  /-- A comma and another clause, or the end of the tokens. -/
  | join
  deriving DecidableEq

structure Place where
  due : Due
  /-- The tokens that are left. -/
  rest : List Token

/-- One step of a reading from place to place. -/
inductive Step : Place → Place → Prop
  | name {tokens rest : List Token} (part : NameAt tokens rest) : Step ⟨.name, tokens⟩ ⟨.assign, rest⟩
  | separator {token : Token} {rest : List Token} (hkind : token.kind = .separator) :
    Step ⟨.assign, token :: rest⟩ ⟨.name, rest⟩
  | assign {token : Token} {rest : List Token} (hkind : token.kind = .assign) :
    Step ⟨.assign, token :: rest⟩ ⟨.key, rest⟩
  | key {tokens rest : List Token} (part : NameAt tokens rest) : Step ⟨.key, tokens⟩ ⟨.join, rest⟩
  | join {token : Token} {rest : List Token} (hkind : token.kind = .join) : Step ⟨.join, token :: rest⟩ ⟨.name, rest⟩

/-- Reading the tokens from the first one comes to the place. -/
def Comes (tokens : List Token) (place : Place) : Prop :=
  ReflTransGen Step ⟨.name, tokens⟩ place

/-- The failure with which a reading halts at a place. Of the tokens that are left, only the first one matters, and where
none is left, whether the text ends there. -/
inductive Halts (stuck : Option Stuck) : Place → Failure → Prop
  | stuck {due : Due} {reason : Stuck} (hstuck : stuck = some reason) : Halts stuck ⟨due, []⟩ ⟨.stuck reason, none⟩
  | noName {due : Due} (hdue : due = .name ∨ due = .key) (hend : stuck = none) :
    Halts stuck ⟨due, []⟩ ⟨.unexpectedEnd .name, none⟩
  | noAssign (hend : stuck = none) : Halts stuck ⟨.assign, []⟩ ⟨.unexpectedEnd .assign, none⟩
  | notName {due : Due} {token : Token} {rest : List Token} (hdue : due = .name ∨ due = .key)
    (hkind : token.kind = .skip) :
    Halts stuck ⟨due, token :: rest⟩ ⟨.unexpectedToken token.stop token.kind .name, some token.stop⟩
  | notAssign {token : Token} {rest : List Token} (hkind : token.kind ≠ .separator ∧ token.kind ≠ .assign) :
    Halts stuck ⟨.assign, token :: rest⟩ ⟨.unexpectedEnd .assign, some token.stop⟩
  | notJoin {token : Token} {rest : List Token} (hkind : token.kind ≠ .join) :
    Halts stuck ⟨.join, token :: rest⟩ ⟨.unexpectedToken token.stop token.kind .join, some token.stop⟩

variable {stuck : Option Stuck} {place next other : Place} {tokens rest : List Token} {failure : Failure}

theorem Grammar.NameAt.suffix (part : NameAt tokens rest) : rest <:+ tokens := by
  cases part with
  | written => exact List.suffix_cons _ _
  | omitted => exact List.suffix_rfl

theorem Grammar.NameAt.kind_ne_skip {token : Token} (part : NameAt (token :: tokens) rest) : token.kind ≠ .skip := by
  intro hskip
  cases part with
  | written hkind => exact absurd (hskip.symm.trans hkind) (by decide)
  | omitted hkind =>
    rw [hskip] at hkind
    cases hkind

theorem Step.suffix (hstep : Step place next) : next.rest <:+ place.rest := by
  cases hstep with
  | name part | key part => exact part.suffix
  | separator | assign | join => exact List.suffix_cons _ _

theorem suffix_of_steps (hsteps : ReflTransGen Step place next) : next.rest <:+ place.rest := by
  induction hsteps with
  | refl => exact List.suffix_rfl
  | tail _ hstep ih => exact hstep.suffix.trans ih

theorem Comes.suffix (hcomes : Comes tokens place) : place.rest <:+ tokens :=
  suffix_of_steps hcomes

/-! ### There is one last place -/

theorem rightUnique_step : Relator.RightUnique Step := by
  intro place first second hfirst hsecond
  cases hfirst with
  | name part =>
    cases hsecond with
    | name other =>
      cases part.unique other
      rfl
  | separator hkind =>
    cases hsecond with
    | separator => rfl
    | assign hother => exact absurd (hkind.symm.trans hother) (by decide)
  | assign hkind =>
    cases hsecond with
    | separator hother => exact absurd (hkind.symm.trans hother) (by decide)
    | assign => rfl
  | key part =>
    cases hsecond with
    | key other =>
      cases part.unique other
      rfl
  | join =>
    cases hsecond with
    | join => rfl

theorem Comes.unique (hplace : Comes tokens place) (hother : Comes tokens other) (hlast : ∀ next, ¬Step place next)
    (hotherLast : ∀ next, ¬Step other next) : place = other := by
  rcases hplace.total_of_right_unique rightUnique_step hother with hsteps | hsteps
  · rcases hsteps.cases_head with hsame | ⟨next, hstep, _⟩
    · exact hsame
    · exact absurd hstep (hlast next)
  · rcases hsteps.cases_head with hsame | ⟨next, hstep, _⟩
    · exact hsame.symm
    · exact absurd hstep (hotherLast next)

theorem not_step_end (next : Place) : ¬Step ⟨.join, []⟩ next := by
  intro hstep
  cases hstep

theorem Halts.not_step (hhalts : Halts stuck place failure) (next : Place) : ¬Step place next := by
  intro hstep
  cases hstep with
  | name part | key part =>
    cases hhalts with
    | stuck | noName => cases part
    | notName _ hkind => exact part.kind_ne_skip hkind
  | separator hkind =>
    cases hhalts with
    | notName hdue => simp at hdue
    | notAssign hother => exact hother.1 hkind
  | assign hkind =>
    cases hhalts with
    | notName hdue => simp at hdue
    | notAssign hother => exact hother.2 hkind
  | join hkind =>
    cases hhalts with
    | notName hdue => simp at hdue
    | notJoin hother => exact hother hkind

theorem Halts.unique {another : Failure} (hhalts : Halts stuck place failure) (hother : Halts stuck place another) :
    failure = another := by
  cases hhalts <;> cases hother <;> simp_all

theorem not_halts_end : ¬Halts none ⟨.join, []⟩ failure := by
  intro hhalts
  cases hhalts with
  | stuck hstuck => cases hstuck
  | noName hdue => simp at hdue

/-! ### The places of a reading -/

theorem steps_of_pathAt (part : PathAt tokens rest) : ReflTransGen Step ⟨.name, tokens⟩ ⟨.key, rest⟩ := by
  induction part with
  | last name hkind => exact .head (.name name) (.single (.assign hkind))
  | cons name hkind _ ih => exact .head (.name name) (.head (.separator hkind) ih)

theorem steps_of_clauseAt (part : ClauseAt tokens rest) : ReflTransGen Step ⟨.name, tokens⟩ ⟨.join, rest⟩ := by
  obtain ⟨path, key⟩ := part
  exact (steps_of_pathAt path).tail (.key key)

theorem comes_of_derivation (derivation : Derivation tokens) : Comes tokens ⟨.join, []⟩ := by
  induction derivation with
  | last clause => exact steps_of_clauseAt clause
  | cons clause hkind _ ih => exact (steps_of_clauseAt clause).trans (.head (.join hkind) ih)

theorem halts_atEnd {due : Due} {expected : TokenKind}
    (hend : Halts none ⟨due, []⟩ ⟨.unexpectedEnd expected, none⟩) :
    Halts stuck ⟨due, []⟩ (.atEnd stuck expected) := by
  cases stuck with
  | none => exact hend
  | some reason => exact .stuck rfl

theorem halts_of_readName {due : Due} (hdue : due = .name ∨ due = .key) (hread : readName stuck tokens = .error failure) :
    Halts stuck ⟨due, tokens⟩ failure := by
  cases tokens with
  | nil =>
    cases hread
    exact halts_atEnd (.noName hdue rfl)
  | cons token rest =>
    rw [readName] at hread
    split at hread
    · cases hread
    · rename_i hreserved
      split at hread
      · cases hread
      · rename_i hname
        cases hread
        apply Halts.notName hdue
        cases hkind : token.kind <;> simp_all [TokenKind.isReserved]

theorem halts_of_readPath (hread : readPath stuck tokens = .error failure) :
    ∃ place, ReflTransGen Step ⟨.name, tokens⟩ place ∧ Halts stuck place failure := by
  fun_induction readPath stuck tokens with
  | case1 tokens _ hname =>
    cases hread
    exact ⟨_, .refl, halts_of_readName (.inl rfl) hname⟩
  | case2 tokens name hname =>
    obtain ⟨part, _⟩ := exists_nameAt hname
    cases hread
    exact ⟨_, .single (.name part), halts_atEnd (.noAssign rfl)⟩
  | case3 tokens name token after hname hkind _ ih =>
    obtain ⟨part, _⟩ := exists_nameAt hname
    obtain ⟨place, hsteps, hhalts⟩ := ih (map_eq_error_iff.1 hread)
    exact ⟨place, .head (.name part) (.head (.separator hkind) hsteps), hhalts⟩
  | case4 => cases hread
  | case5 tokens name token after hname hseparator hassign =>
    obtain ⟨part, _⟩ := exists_nameAt hname
    cases hread
    exact ⟨_, .single (.name part), .notAssign ⟨hseparator, hassign⟩⟩

theorem halts_of_readClause (hread : readClause stuck tokens = .error failure) :
    ∃ place, ReflTransGen Step ⟨.name, tokens⟩ place ∧ Halts stuck place failure := by
  rw [readClause] at hread
  cases hpath : readPath stuck tokens with
  | error other =>
    simp only [hpath, bind, Except.bind, Except.error.injEq] at hread
    subst hread
    exact halts_of_readPath hpath
  | ok found =>
    obtain ⟨path, _⟩ := exists_pathAt hpath
    cases hkey : readName stuck found.2 with
    | error other =>
      simp only [hpath, hkey, bind, Except.bind, Except.error.injEq] at hread
      subst hread
      exact ⟨_, steps_of_pathAt path, halts_of_readName (.inr rfl) hkey⟩
    | ok last => simp [hpath, hkey, bind, Except.bind] at hread

theorem halts_of_readClauses (hread : readClauses stuck tokens = .error failure) :
    ∃ place, Comes tokens place ∧ Halts stuck place failure := by
  fun_induction readClauses stuck tokens with
  | case1 tokens _ hclause =>
    cases hread
    exact halts_of_readClause hclause
  | case2 => cases hread
  | case3 tokens clause hclause reason =>
    obtain ⟨part, _⟩ := exists_clauseAt hclause
    cases hread
    exact ⟨_, steps_of_clauseAt part, .stuck ‹stuck = some reason›⟩
  | case4 tokens clause token after hclause hkind _ ih =>
    obtain ⟨part, _⟩ := exists_clauseAt hclause
    obtain ⟨place, hsteps, hhalts⟩ := ih (map_eq_error_iff.1 hread)
    exact ⟨place, (steps_of_clauseAt part).trans (.head (.join hkind) hsteps), hhalts⟩
  | case5 tokens clause token after hclause hkind =>
    obtain ⟨part, _⟩ := exists_clauseAt hclause
    cases hread
    exact ⟨_, steps_of_clauseAt part, .notJoin hkind⟩

/-- A reading succeeds exactly if it comes to the end of the text after a clause. -/
theorem exists_readClauses_iff :
    (∃ clauses, readClauses stuck tokens = .ok clauses) ↔ stuck = none ∧ Comes tokens ⟨.join, []⟩ := by
  constructor
  · rintro ⟨clauses, hread⟩
    obtain ⟨hend, derivation, _⟩ := exists_derivation hread
    exact ⟨hend, comes_of_derivation derivation⟩
  · rintro ⟨rfl, hend⟩
    cases hread : readClauses none tokens with
    | ok clauses => exact ⟨clauses, rfl⟩
    | error failure =>
      obtain ⟨place, hcomes, hhalts⟩ := halts_of_readClauses hread
      obtain rfl := hcomes.unique hend hhalts.not_step not_step_end
      exact absurd hhalts not_halts_end

theorem readClauses_eq_error_iff :
    readClauses stuck tokens = .error failure ↔ ∃ place, Comes tokens place ∧ Halts stuck place failure := by
  refine ⟨halts_of_readClauses, ?_⟩
  rintro ⟨place, hcomes, hhalts⟩
  cases hread : readClauses stuck tokens with
  | ok clauses =>
    obtain ⟨rfl, hend⟩ := exists_readClauses_iff.1 ⟨clauses, hread⟩
    obtain rfl := hcomes.unique hend hhalts.not_step not_step_end
    exact absurd hhalts not_halts_end
  | error found =>
    obtain ⟨last, hlast, hfound⟩ := halts_of_readClauses hread
    obtain rfl := hcomes.unique hlast hhalts.not_step hfound.not_step
    rw [hfound.unique hhalts]

/-! ### Failures and tokens -/

/-- What a failure tells about the tokens in which it was found. -/
structure Failure.FitsIn (tokens : List Token) (failure : Failure) : Prop where
  noticed : ∀ place ∈ failure.noticed, ∃ token ∈ tokens, token.stop = place
  position : ∀ place found expected, failure.error = .unexpectedToken place found expected →
    failure.noticed = some place
  name : failure.error = .unexpectedEnd .name → failure.noticed = none

theorem Failure.FitsIn.of_subset (hfits : failure.FitsIn rest) (hsubset : rest ⊆ tokens) : failure.FitsIn tokens where
  noticed place hplace := by
    obtain ⟨token, htoken, hstop⟩ := hfits.noticed place hplace
    exact ⟨token, hsubset htoken, hstop⟩
  position := hfits.position
  name := hfits.name

theorem Halts.fitsIn (hhalts : Halts stuck place failure) : failure.FitsIn place.rest where
  noticed position hposition := by
    cases hhalts with
    | stuck | noName | noAssign => cases hposition
    | notName | notAssign | notJoin => exact ⟨_, List.mem_cons_self, Option.some.inj hposition⟩
  position position found expected herror := by
    cases hhalts with
    | stuck | noName | noAssign | notAssign => cases herror
    | notName | notJoin =>
      cases herror
      rfl
  name herror := by
    cases hhalts with
    | stuck | noName | noAssign => rfl
    | notName | notAssign | notJoin => cases herror

theorem fitsIn_of_readClauses (hread : readClauses stuck tokens = .error failure) : failure.FitsIn tokens := by
  obtain ⟨place, hcomes, hhalts⟩ := halts_of_readClauses hread
  exact hhalts.fitsIn.of_subset hcomes.suffix.subset

end Pluck.Query
