import Pluck.Pattern.Reader
import Pluck.Pattern.Search
import Pluck.Text.Quoted
import Pluck.Token

/-!
# Cutting a text into tokens

A `Lexicon` is an ordered list of rules, each a pattern with the kind of token that it finds, and one kind that is
skipped. The text is taken from the left: the first rule whose leftmost match of what remains begins right there, and is
not empty, gives the next token. `Lexicon.next` passes over the tokens of the skipped kind and stops at the first other
one; `Lexicon.read` goes on to the end of the text, or to a place where no rule matches.
-/

namespace Pluck

structure Rule where
  pattern : Pattern
  kind : TokenKind
  deriving Repr, DecidableEq

/-- A text of which no rule has been made, because it is not a pattern, or because it is written with what is left out
of the patterns that are read. -/
structure InvalidPattern where
  pattern : String
  refusal : Pattern.Refusal
  deriving Repr, DecidableEq

/-- The message, without the cause. It says that a text is invalid only where this is settled. -/
def InvalidPattern.message (error : InvalidPattern) : String :=
  match error.refusal with
  | .malformed => "Invalid token pattern " ++ Text.quoted error.pattern ++ ": "
  | .outside => "Unknown token pattern " ++ Text.quoted error.pattern ++ ": "

namespace Rule

/-- The pattern's text with an anchor at the start. A text that begins with an anchor is left as it is. -/
def anchoredText (pattern : String) : String :=
  if pattern.toList.head? = some '^' then pattern else "^(?:" ++ pattern ++ ")"

/-- The rule for tokens of a kind that look as the pattern says. It is the text with the anchor that has to be a
pattern. -/
def ofPattern (pattern : String) (kind : TokenKind) : Except InvalidPattern Rule :=
  match Pattern.read (anchoredText pattern) with
  | .ok anchored => .ok ⟨anchored, kind⟩
  | .error refusal => .error ⟨pattern, refusal⟩

/-- How many characters the rule takes from the start of a text: those of the text's leftmost match, if that begins at
the start and is not empty. -/
def length? (rule : Rule) (text : List Char) : Option Nat :=
  match rule.pattern.find? text with
  | some (0, length + 1) => some (length + 1)
  | _ => none

theorem length?_pos {rule : Rule} {text : List Char} {length : Nat} (h : rule.length? text = some length) :
    0 < length := by
  unfold length? at h
  split at h
  · cases h; omega
  · cases h

end Rule

/-- What remains of a text, and where it begins in the whole. -/
structure Source where
  offset : Nat
  rest : List Char
  deriving Repr, DecidableEq

def Source.ofString (text : String) : Source :=
  ⟨0, text.toList⟩

structure Stuck where
  position : Nat
  remaining : String
  deriving Repr, DecidableEq

def Stuck.message (stuck : Stuck) : String :=
  "Unexpected input at position " ++ toString stuck.position ++ ": no rule matches " ++ Text.quoted stuck.remaining

structure Lexicon where
  rules : List Rule
  skipped : TokenKind
  deriving Repr, DecidableEq

/-- What the search for the next token has found. -/
inductive Answer
  | token (found : Token)
  | finished
  | stuck (reason : Stuck)
  deriving Repr, DecidableEq

/-- The search for one token: the tokens passed over, what was found, and what remains of the text. -/
structure Advance where
  passed : List Token
  answer : Answer
  source : Source
  deriving Repr, DecidableEq

/-- A text that has been read: its tokens of every kind in their order, and why the last of them does not end with the
text, if it does not. -/
structure Reading where
  found : List Token
  stuck : Option Stuck
  deriving Repr, DecidableEq

namespace Lexicon

/-- The kind of the first rule that applies to a text, and how many characters it takes. -/
def match? (lexicon : Lexicon) (text : List Char) : Option (TokenKind × Nat) :=
  lexicon.rules.findSome? fun rule => (rule.length? text).map (rule.kind, ·)

/-- The token at the start of what remains, of whatever kind, and what remains after it. -/
def token? (lexicon : Lexicon) (source : Source) : Option (Token × Source) :=
  (lexicon.match? source.rest).map fun (kind, length) =>
    let token : Token := ⟨kind, String.ofList (source.rest.take length), source.offset⟩
    (token, ⟨token.stop, source.rest.drop length⟩)

theorem match?_pos {lexicon : Lexicon} {text : List Char} {kind : TokenKind} {length : Nat}
    (h : lexicon.match? text = some (kind, length)) : 0 < length := by
  obtain ⟨rule, _, found⟩ := List.exists_of_findSome?_eq_some h
  obtain ⟨_, taken, result⟩ := Option.map_eq_some_iff.1 found
  cases result
  exact Rule.length?_pos taken

theorem length_lt_of_token? {lexicon : Lexicon} {source after : Source} {token : Token}
    (h : lexicon.token? source = some (token, after)) (nonempty : source.rest ≠ []) :
    after.rest.length < source.rest.length := by
  obtain ⟨⟨kind, length⟩, found, result⟩ := Option.map_eq_some_iff.1 h
  cases result
  have taken := match?_pos found
  have remaining := List.length_pos_iff.2 nonempty
  simp only [List.length_drop]
  omega

/-- Searches for the next token that is not skipped. -/
def next (lexicon : Lexicon) (source : Source) : Advance :=
  if nonempty : source.rest = [] then ⟨[], .finished, source⟩
  else
    match found : lexicon.token? source with
    | none => ⟨[], .stuck ⟨source.offset, String.ofList source.rest⟩, source⟩
    | some (token, after) =>
      if token.kind = lexicon.skipped then
        have := length_lt_of_token? found nonempty
        let advance := lexicon.next after
        { advance with passed := token :: advance.passed }
      else ⟨[], .token token, after⟩
termination_by source.rest.length

theorem length_lt_of_next {lexicon : Lexicon} {source : Source} {token : Token}
    (h : (lexicon.next source).answer = .token token) :
    (lexicon.next source).source.rest.length < source.rest.length := by
  fun_induction next lexicon source with
  | case1 | case2 => cases h
  | case3 source _ _ _ _ _ shorter _ ih => exact Nat.lt_trans (ih h) shorter
  | case4 source nonempty _ _ found _ => exact length_lt_of_token? found nonempty

/-- Reads a text to its end, or to where no rule matches. -/
def read (lexicon : Lexicon) (source : Source) : Reading :=
  let advance := lexicon.next source
  match found : advance.answer with
  | .finished => ⟨advance.passed, none⟩
  | .stuck reason => ⟨advance.passed, some reason⟩
  | .token token =>
    have := length_lt_of_next found
    let later := lexicon.read advance.source
    ⟨advance.passed ++ token :: later.found, later.stuck⟩
termination_by source.rest.length

def kept (lexicon : Lexicon) (reading : Reading) : List Token :=
  reading.found.filter (·.kind ≠ lexicon.skipped)

end Lexicon

end Pluck
