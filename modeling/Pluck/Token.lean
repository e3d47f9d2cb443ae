/-!
# Tokens

The parts that a query is made of, each with the place in the text where it was found. Places are counted in bytes of
UTF-8.
-/

namespace Pluck

inductive TokenKind
  /-- Blanks between the parts of a query. -/
  | skip
  | join
  | separator
  | assign
  /-- A name, up to the next of the three characters above. -/
  | name
  deriving Repr, DecidableEq

namespace TokenKind

def label : TokenKind → String
  | skip => "Skip"
  | join => "Join"
  | separator => "PathSeparator"
  | assign => "Assignment"
  | name => "FieldName"

/-- The kinds of the three characters that give a query its structure. -/
def isReserved : TokenKind → Bool
  | join | separator | assign => true
  | skip | name => false

end TokenKind

structure Token where
  kind : TokenKind
  text : String
  position : Nat
  deriving Repr, DecidableEq

def Token.stop (token : Token) : Nat :=
  token.position + token.text.utf8ByteSize

end Pluck
