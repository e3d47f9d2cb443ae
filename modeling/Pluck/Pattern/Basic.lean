import Pluck.Pattern.CharSet

/-!
# Patterns

A `Pattern` describes pieces of text. Patterns are put together by `concat`, `alternation` and `repeated`, which keep
them in a plain form: sequences and alternations are flat, texts that follow each other are one text, a choice between
characters is a set, and what all branches of an alternation begin with stands before the alternation. The preference
among the ways in which a pattern can match belongs to the plain form.
-/

namespace Pluck

/-- What a piece of text may look like. -/
inductive Pattern
  | empty
  /-- The very text, which is not empty. -/
  | literal (text : List Char)
  | one (set : CharSet)
  | start
  | stop
  /-- A group that is counted. Its number tells it from a group of the same look. -/
  | group (number : Nat) (body : Pattern)
  /-- Between `least` and `most` rounds; `none` sets no limit. -/
  | rounds (body : Pattern) (least : Nat) (most : Option Nat) (greedy : Bool)
  | seq (first rest : Pattern)
  | alt (preferred other : Pattern)
  deriving Repr, DecidableEq

namespace Pattern

/-- One character of a set. -/
def ofSet (set : CharSet) : Pattern :=
  match set.character? with
  | some c => literal [c]
  | none => one set

/-! ### Sequences -/

def pieces : Pattern → List Pattern
  | empty => []
  | seq first rest => first.pieces ++ rest.pieces
  | piece => [piece]

/-- A piece before a sequence, joined to it where both are texts. -/
def before : Pattern → Pattern → Pattern
  | piece, empty => piece
  | literal text, literal more => literal (text ++ more)
  | literal text, seq (literal more) rest => seq (literal (text ++ more)) rest
  | piece, rest => seq piece rest

def concat (patterns : List Pattern) : Pattern :=
  (patterns.flatMap pieces).foldr before empty

/-! ### Alternations -/

/-- The branches of an alternation, the most preferred first. -/
def branches : Pattern → List Pattern
  | alt preferred other => preferred.branches ++ other.branches
  | branch => [branch]

def character? : Pattern → Option Char
  | literal [c] => some c
  | _ => none

def set? : Pattern → Option CharSet
  | one set => some set
  | _ => none

def isSeq : Pattern → Bool
  | seq _ _ => true
  | _ => false

/-- The characters between which some branches choose, where all of them are single characters or all are sets. -/
def choice? (branches : List Pattern) : Option CharSet :=
  ((branches.mapM character?).map fun chars => .ofRanges (chars.map fun c => (c, c))).or
    ((branches.mapM set?).map (·.foldr .union ⟨[]⟩))

/-- The alternation of branches that are no alternations themselves. -/
def chain : List Pattern → Pattern
  | [] => empty
  | [branch] => branch
  | branch :: later => alt branch (chain later)

/-- The alternation of branches that are no alternations themselves, or the set that it amounts to. -/
def unite (branches : List Pattern) : Pattern :=
  match choice? branches with
  | some set => ofSet set
  | none => chain branches

def commonStart : List Pattern → List Pattern → List Pattern
  | first :: rest, other :: more => if first = other then first :: commonStart rest more else []
  | _, _ => []

/-- The pieces with which all of some branches begin, where every branch is a sequence. -/
def sharedStart : List Pattern → List Pattern
  | [] => []
  | branch :: others =>
    if (branch :: others).all isSeq then (others.map pieces).foldl commonStart branch.pieces else []

/-- The alternation of patterns, the most preferred first. -/
def alternation : List Pattern → Pattern
  | [pattern] => pattern
  | patterns =>
    let all := patterns.flatMap branches
    let shared := sharedStart all
    let remainders := all.map fun branch => concat (branch.pieces.drop shared.length)
    if shared.isEmpty then unite all else concat (shared ++ [unite (remainders.flatMap branches)])

/-! ### Repetitions -/

/-- Every match is empty. -/
def takesNothing : Pattern → Bool
  | empty | start | stop => true
  | literal _ | one _ => false
  | group _ body | rounds body _ _ _ => body.takesNothing
  | seq first rest => first.takesNothing && rest.takesNothing
  | alt preferred other => preferred.takesNothing && other.takesNothing

/-- No character is needed for a match. -/
def mayBeEmpty : Pattern → Bool
  | empty | start | stop => true
  | literal _ | one _ => false
  | group _ body => body.mayBeEmpty
  | rounds body least _ _ => least == 0 || body.mayBeEmpty
  | seq first rest => first.mayBeEmpty && rest.mayBeEmpty
  | alt preferred other => preferred.mayBeEmpty || other.mayBeEmpty

/-- A repetition of a pattern. Of a pattern that takes nothing, one round does as much as many. -/
def repeated (body : Pattern) (least : Nat) (most : Option Nat) (greedy : Bool) : Pattern :=
  let (least, most) := if body.takesNothing then (min least 1, some (min (most.getD 1) 1)) else (least, most)
  if most = some 0 then empty
  else if least = 1 ∧ most = some 1 then body
  else rounds body least most greedy

end Pattern

end Pluck
