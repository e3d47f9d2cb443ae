import Pluck.Escape
import Pluck.Lexicon
import Pluck.Query.Basic

/-!
# Reading queries

A query is read from the tokens of its text:

    query  := clause (`,` clause)*
    clause := name (`.` name)* `=` name

where a name is empty if one of `,` `.` `=` stands in its place. The first token that does not fit ends the reading with
a `ParseError`, and so does a place in the text where no token begins. The escaped forms in a name are resolved once the
structure is settled, so that they never act as structure.
-/

namespace Pluck

/-- Why a text is not a query. -/
inductive ParseError
  /-- No token begins where the next one is due. -/
  | stuck (reason : Stuck)
  /-- The token that ends at `position` has another kind than is expected there. -/
  | unexpectedToken (position : Nat) (found expected : TokenKind)
  /-- What comes next cannot be the token that is expected. -/
  | unexpectedEnd (expected : TokenKind)
  deriving Repr, DecidableEq

def ParseError.message : ParseError → String
  | stuck reason => reason.message
  | unexpectedToken position found expected =>
    "Unexpected token " ++ found.label ++ " at position " ++ toString position ++ ", expected " ++ expected.label
  | unexpectedEnd expected => "Unexpected end of input, expected " ++ expected.label

namespace Query

/-- A reading that has failed: the error, and the end of the token at which it was noticed, or `none` if no token was
left. -/
structure Failure where
  error : ParseError
  noticed : Option Nat
  deriving Repr, DecidableEq

/-- The failure for a missing token at the end of the tokens, which may be a place where the text could not be read. -/
def Failure.atEnd (stuck : Option Stuck) (expected : TokenKind) : Failure :=
  match stuck with
  | some reason => ⟨.stuck reason, none⟩
  | none => ⟨.unexpectedEnd expected, none⟩

/-- A name, which is empty if a token of a reserved kind stands in its place, and the tokens after it. -/
def readName (stuck : Option Stuck) : List Token → Except Failure (String × List Token)
  | [] => .error (.atEnd stuck .name)
  | token :: rest =>
    if token.kind.isReserved then .ok ("", token :: rest)
    else if token.kind = .name then .ok (Escape.decode token.text, rest)
    else .error ⟨.unexpectedToken token.stop token.kind .name, some token.stop⟩

theorem length_le_of_readName {stuck : Option Stuck} {tokens rest : List Token} {name : String}
    (h : readName stuck tokens = .ok (name, rest)) : rest.length ≤ tokens.length := by
  cases tokens with
  | nil => simp [readName] at h
  | cons token after =>
    simp only [readName] at h
    split at h
    · simp only [Except.ok.injEq, Prod.mk.injEq] at h
      simp [← h.2]
    · split at h
      · simp only [Except.ok.injEq, Prod.mk.injEq] at h
        simp [← h.2]
      · simp at h

/-- The names of a path with the equals sign after it, and the tokens that follow. -/
def readPath (stuck : Option Stuck) (tokens : List Token) : Except Failure (List String × List Token) :=
  match found : readName stuck tokens with
  | .error failure => .error failure
  | .ok (_, []) => .error (.atEnd stuck .assign)
  | .ok (name, token :: rest) =>
    if token.kind = .separator then
      have := length_le_of_readName found
      (readPath stuck rest).map fun (names, rest) => (name :: names, rest)
    else if token.kind = .assign then .ok ([name], rest)
    else .error ⟨.unexpectedEnd .assign, some token.stop⟩
termination_by tokens.length

/-- The recursion of `readPath` without the proof that it ends. -/
theorem readPath_eq (stuck : Option Stuck) (tokens : List Token) :
    readPath stuck tokens =
      match readName stuck tokens with
      | .error failure => .error failure
      | .ok (_, []) => .error (.atEnd stuck .assign)
      | .ok (name, token :: rest) =>
        if token.kind = .separator then (readPath stuck rest).map fun (names, rest) => (name :: names, rest)
        else if token.kind = .assign then .ok ([name], rest)
        else .error ⟨.unexpectedEnd .assign, some token.stop⟩ := by
  rw [readPath]
  split <;> rename_i hname <;> simp only [hname]

theorem length_lt_of_readPath {stuck : Option Stuck} {tokens rest : List Token} {path : List String}
    (h : readPath stuck tokens = .ok (path, rest)) : rest.length < tokens.length := by
  fun_induction readPath stuck tokens generalizing path with
  | case1 | case2 | case5 => cases h
  | case3 tokens name token after found _ shorter ih =>
    cases result : readPath stuck after with
    | error failure => simp [result, Except.map] at h
    | ok pair =>
      simp only [result, Except.map, Except.ok.injEq, Prod.mk.injEq] at h
      obtain ⟨_, rfl⟩ := h
      have := ih result
      simp only [List.length_cons] at shorter
      omega
  | case4 tokens name token after found _ _ =>
    cases h
    exact length_le_of_readName found

def readClause (stuck : Option Stuck) (tokens : List Token) : Except Failure (Clause × List Token) := do
  let (path, rest) ← readPath stuck tokens
  let (key, rest) ← readName stuck rest
  .ok (⟨path, key⟩, rest)

theorem length_lt_of_readClause {stuck : Option Stuck} {tokens rest : List Token} {clause : Clause}
    (h : readClause stuck tokens = .ok (clause, rest)) : rest.length < tokens.length := by
  unfold readClause at h
  cases path : readPath stuck tokens with
  | error failure => simp [path, bind, Except.bind] at h
  | ok pair =>
    cases name : readName stuck pair.2 with
    | error failure => simp [path, name, bind, Except.bind] at h
    | ok last =>
      simp only [path, name, bind, Except.bind, Except.ok.injEq, Prod.mk.injEq] at h
      obtain ⟨_, rfl⟩ := h
      exact Nat.lt_of_le_of_lt (length_le_of_readName name) (length_lt_of_readPath path)

/-- The clauses that all tokens make up. -/
def readClauses (stuck : Option Stuck) (tokens : List Token) : Except Failure (List Clause) :=
  match found : readClause stuck tokens with
  | .error failure => .error failure
  | .ok (clause, []) =>
    match stuck with
    | none => .ok [clause]
    | some reason => .error ⟨.stuck reason, none⟩
  | .ok (clause, token :: rest) =>
    if token.kind = .join then
      have : rest.length + 1 < tokens.length := length_lt_of_readClause found
      (readClauses stuck rest).map (clause :: ·)
    else .error ⟨.unexpectedToken token.stop token.kind .join, some token.stop⟩
termination_by tokens.length

/-- The recursion of `readClauses` without the proof that it ends. -/
theorem readClauses_eq (stuck : Option Stuck) (tokens : List Token) :
    readClauses stuck tokens =
      match readClause stuck tokens with
      | .error failure => .error failure
      | .ok (clause, []) =>
        match stuck with
        | none => .ok [clause]
        | some reason => .error ⟨.stuck reason, none⟩
      | .ok (clause, token :: rest) =>
        if token.kind = .join then (readClauses stuck rest).map (clause :: ·)
        else .error ⟨.unexpectedToken token.stop token.kind .join, some token.stop⟩ := by
  rw [readClauses]
  split <;> rename_i hclause <;> simp only [hclause]
  cases stuck <;> rfl

/-! ### From a text -/

/-- The query that the tokens of a text make up, with the lexicon that has read the text. -/
def ofReading (lexicon : Lexicon) (reading : Reading) : Except Failure Query :=
  (readClauses reading.stuck (lexicon.kept reading)).map Query.mk

def nameCharacters : CharSet :=
  (CharSet.ofRanges [('.', '.'), (',', ','), ('=', '=')]).complement

/-- The tokens of a query. A name goes on to the next character with a meaning of its own, so that blanks are skipped
before a name and belong to it after its first character. -/
def lexicon : Lexicon where
  rules := [
    ⟨.seq .start (.rounds (.one .blank) 1 none true), .skip⟩,
    ⟨.seq .start (.literal [',']), .join⟩,
    ⟨.seq .start (.literal ['.']), .separator⟩,
    ⟨.seq .start (.literal ['=']), .assign⟩,
    ⟨.seq .start (.rounds (.one nameCharacters) 0 none true), .name⟩]
  skipped := .skip

def read (text : String) : Reading :=
  lexicon.read (.ofString text)

/-- Reads the text of a query. An empty text has no clause and is not a query. -/
def ofString (text : String) : Except ParseError Query :=
  (ofReading lexicon (read text)).mapError Failure.error

end Query

end Pluck
