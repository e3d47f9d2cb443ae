import Pluck.Proofs.Lexicon.Reading
import Pluck.Query.Reader

/-!
# The grammar of queries

A query is derived from the tokens that a lexicon returns, by the rules

    query  := clause (join clause)*
    clause := path name
    path   := name (separator name)* assign
    name   := the token of a name, or nothing where a reserved token is next

A derivation says how the tokens from one place to another are made up. It looks at the kinds of the tokens only, and
what it derives is read off it. `ofReading_eq_ok_iff` is the main statement, for every lexicon and hence for any tokens
in any order: the tokens are read as a query exactly if they have a derivation, and this derivation is the only one.
-/

namespace Pluck.Query

namespace Grammar

/-- A name among tokens, where `tokens` begin with it and `rest` are the tokens after it. -/
inductive NameAt : List Token → List Token → Type
  | written {token : Token} {rest : List Token} (hkind : token.kind = .name) : NameAt (token :: rest) rest
  | omitted {token : Token} {rest : List Token} (hkind : token.kind.isReserved) : NameAt (token :: rest) (token :: rest)

/-- The names of a path with the token that ends it. -/
inductive PathAt : List Token → List Token → Type
  | last {token : Token} {tokens rest : List Token} (name : NameAt tokens (token :: rest))
    (hkind : token.kind = .assign) : PathAt tokens rest
  | cons {token : Token} {tokens middle rest : List Token} (name : NameAt tokens (token :: middle))
    (hkind : token.kind = .separator) (path : PathAt middle rest) : PathAt tokens rest

inductive ClauseAt : List Token → List Token → Type
  | mk {tokens middle rest : List Token} (path : PathAt tokens middle) (key : NameAt middle rest) : ClauseAt tokens rest

/-- A query that all tokens make up. -/
inductive Derivation : List Token → Type
  | last {tokens : List Token} (clause : ClauseAt tokens []) : Derivation tokens
  | cons {token : Token} {tokens rest : List Token} (clause : ClauseAt tokens (token :: rest))
    (hkind : token.kind = .join) (later : Derivation rest) : Derivation tokens

/-! ### What is derived -/

def NameAt.value {tokens rest : List Token} : NameAt tokens rest → String
  | @written token _ _ => Escape.decode token.text
  | omitted _ => ""

def PathAt.names {tokens rest : List Token} : PathAt tokens rest → List String
  | last name _ => [name.value]
  | cons name _ path => name.value :: path.names

def ClauseAt.clause {tokens rest : List Token} : ClauseAt tokens rest → Clause
  | mk path key => ⟨path.names, key.value⟩

def Derivation.clauses {tokens : List Token} : Derivation tokens → List Clause
  | last clause => [clause.clause]
  | cons clause _ later => clause.clause :: later.clauses

def Derivation.query {tokens : List Token} (derivation : Derivation tokens) : Query :=
  ⟨derivation.clauses⟩

/-! ### There is at most one derivation

Two parts that begin at the same place are the same and end at the same place, so the statements are about a part
together with its end. -/

theorem NameAt.unique {tokens left right : List Token} (first : NameAt tokens left) (second : NameAt tokens right) :
    (⟨left, first⟩ : Σ rest, NameAt tokens rest) = ⟨right, second⟩ := by
  cases first with
  | written hfirst =>
    cases second with
    | written hsecond => rfl
    | omitted hsecond => simp [hfirst, TokenKind.isReserved] at hsecond
  | omitted hfirst =>
    cases second with
    | written hsecond => simp [hsecond, TokenKind.isReserved] at hfirst
    | omitted hsecond => rfl

theorem PathAt.unique {tokens left right : List Token} (first : PathAt tokens left) (second : PathAt tokens right) :
    (⟨left, first⟩ : Σ rest, PathAt tokens rest) = ⟨right, second⟩ := by
  induction first with
  | last name hfirst =>
    cases second with
    | last other hsecond =>
      cases name.unique other
      rfl
    | cons other hsecond _ =>
      cases name.unique other
      rw [hfirst] at hsecond
      cases hsecond
  | cons name hfirst path ih =>
    cases second with
    | last other hsecond =>
      cases name.unique other
      rw [hfirst] at hsecond
      cases hsecond
    | cons other hsecond rest =>
      cases name.unique other
      cases ih rest
      rfl

theorem ClauseAt.unique {tokens left right : List Token} (first : ClauseAt tokens left)
    (second : ClauseAt tokens right) : (⟨left, first⟩ : Σ rest, ClauseAt tokens rest) = ⟨right, second⟩ := by
  obtain ⟨path, key⟩ := first
  obtain ⟨otherPath, otherKey⟩ := second
  cases path.unique otherPath
  cases key.unique otherKey
  rfl

instance (tokens : List Token) : Subsingleton (Derivation tokens) := by
  constructor
  intro first second
  induction first with
  | last clause =>
    cases second with
    | last other =>
      cases clause.unique other
      rfl
    | cons other _ _ => cases clause.unique other
  | cons clause _ later ih =>
    cases second with
    | last other => cases clause.unique other
    | cons other _ others =>
      cases clause.unique other
      rw [ih others]

/-! ### The parts that are read are those of a derivation -/

variable {stuck : Option Stuck} {tokens rest : List Token}

theorem readName_of_nameAt (part : NameAt tokens rest) : readName stuck tokens = .ok (part.value, rest) := by
  cases part with
  | written hkind =>
    rw [readName, if_neg (by simp [hkind, TokenKind.isReserved]), if_pos hkind]
    rfl
  | omitted hkind =>
    rw [readName, if_pos hkind]
    rfl

theorem exists_nameAt {name : String} (hread : readName stuck tokens = .ok (name, rest)) :
    ∃ part : NameAt tokens rest, part.value = name := by
  cases tokens with
  | nil => cases hread
  | cons token after =>
    rw [readName] at hread
    by_cases hreserved : token.kind.isReserved
    · rw [if_pos hreserved] at hread
      cases hread
      exact ⟨.omitted hreserved, rfl⟩
    · rw [if_neg hreserved] at hread
      by_cases hname : token.kind = .name
      · rw [if_pos hname] at hread
        simp only [Except.ok.injEq, Prod.mk.injEq] at hread
        obtain ⟨hvalue, rfl⟩ := hread
        exact ⟨.written hname, hvalue⟩
      · rw [if_neg hname] at hread
        cases hread

theorem readPath_of_pathAt (part : PathAt tokens rest) : readPath stuck tokens = .ok (part.names, rest) := by
  induction part with
  | last name hkind =>
    rw [readPath_eq, readName_of_nameAt name]
    simp [hkind, PathAt.names]
  | cons name hkind path ih =>
    rw [readPath_eq, readName_of_nameAt name]
    simp [hkind, ih, PathAt.names, Except.map]

theorem exists_pathAt {path : List String} (hread : readPath stuck tokens = .ok (path, rest)) :
    ∃ part : PathAt tokens rest, part.names = path := by
  fun_induction readPath stuck tokens generalizing path with
  | case1 | case2 | case5 => cases hread
  | case3 tokens name token after hname hkind _ ih =>
    obtain ⟨first, rfl⟩ := exists_nameAt hname
    cases hlater : readPath stuck after with
    | error failure => simp [hlater, Except.map] at hread
    | ok later =>
      simp only [hlater, Except.map, Except.ok.injEq, Prod.mk.injEq] at hread
      obtain ⟨rfl, rfl⟩ := hread
      obtain ⟨others, hothers⟩ := ih hlater
      exact ⟨.cons first hkind others, by rw [PathAt.names, hothers]⟩
  | case4 tokens name token after hname _ hkind =>
    obtain ⟨only, rfl⟩ := exists_nameAt hname
    cases hread
    exact ⟨.last only hkind, rfl⟩

theorem readClause_of_clauseAt (part : ClauseAt tokens rest) : readClause stuck tokens = .ok (part.clause, rest) := by
  obtain ⟨path, key⟩ := part
  rw [readClause, readPath_of_pathAt path]
  simp [bind, Except.bind, readName_of_nameAt key, ClauseAt.clause]

theorem exists_clauseAt {clause : Clause} (hread : readClause stuck tokens = .ok (clause, rest)) :
    ∃ part : ClauseAt tokens rest, part.clause = clause := by
  rw [readClause] at hread
  cases hpath : readPath stuck tokens with
  | error failure => simp [hpath, bind, Except.bind] at hread
  | ok found =>
    cases hkey : readName stuck found.2 with
    | error failure => simp [hpath, hkey, bind, Except.bind] at hread
    | ok last =>
      simp only [hpath, hkey, bind, Except.bind, Except.ok.injEq, Prod.mk.injEq] at hread
      obtain ⟨rfl, rfl⟩ := hread
      obtain ⟨path, hnames⟩ := exists_pathAt hpath
      obtain ⟨key, hvalue⟩ := exists_nameAt hkey
      exact ⟨.mk path key, by rw [ClauseAt.clause, hnames, hvalue]⟩

theorem readClauses_of_derivation (derivation : Derivation tokens) :
    readClauses none tokens = .ok derivation.clauses := by
  induction derivation with
  | last clause =>
    rw [readClauses_eq, readClause_of_clauseAt clause]
    rfl
  | cons clause hkind later ih =>
    rw [readClauses_eq, readClause_of_clauseAt clause]
    simp [hkind, ih, Derivation.clauses, Except.map]

/-- A reading that succeeds has come to the end of the text, and to the end of a derivation. -/
theorem exists_derivation {clauses : List Clause} (hread : readClauses stuck tokens = .ok clauses) :
    stuck = none ∧ ∃ derivation : Derivation tokens, derivation.clauses = clauses := by
  fun_induction readClauses stuck tokens generalizing clauses with
  | case1 | case3 | case5 => cases hread
  | case2 tokens clause hclause =>
    obtain ⟨only, rfl⟩ := exists_clauseAt hclause
    cases hread
    exact ⟨‹stuck = none›, .last only, rfl⟩
  | case4 tokens clause token after hclause hkind _ ih =>
    obtain ⟨first, rfl⟩ := exists_clauseAt hclause
    cases hlater : readClauses stuck after with
    | error failure => simp [hlater, Except.map] at hread
    | ok later =>
      simp only [hlater, Except.map, Except.ok.injEq] at hread
      subst hread
      obtain ⟨hend, others, hothers⟩ := ih hlater
      exact ⟨hend, .cons first hkind others, by rw [Derivation.clauses, hothers]⟩

end Grammar

open Grammar in
/-- The tokens that searches of a lexicon return are read as a query exactly if the last search comes to the end of the
text and the tokens have a derivation, which is then the only one and derives the query. -/
theorem ofReading_eq_ok_iff (lexicon : Lexicon) (source : Source) (query : Query) :
    (ofReading lexicon (lexicon.read source) = .ok query ↔
        (lexicon.stream source).stuck = none ∧
          ∃ derivation : Derivation (lexicon.stream source).tokens, derivation.query = query) ∧
      Subsingleton (Derivation (lexicon.stream source).tokens) := by
  refine ⟨?_, inferInstance⟩
  rw [Lexicon.stuck_stream, Lexicon.tokens_stream, ofReading]
  constructor
  · intro hread
    cases hclauses : readClauses (lexicon.read source).stuck (lexicon.kept (lexicon.read source)) with
    | error failure => simp [hclauses, Except.map] at hread
    | ok clauses =>
      simp only [hclauses, Except.map, Except.ok.injEq] at hread
      obtain ⟨hend, derivation, rfl⟩ := exists_derivation hclauses
      exact ⟨hend, derivation, hread⟩
  · rintro ⟨hend, derivation, rfl⟩
    rw [hend, readClauses_of_derivation derivation]
    rfl

end Pluck.Query
