import Pluck.Pattern.Basic

/-!
# Escapes and classes of a written pattern

Patterns are written in a large language, of which a part is read here: characters that stand for themselves, the
anchors `^` and `$`, the dot, classes in brackets, groups, alternations, repetitions, and the verbose mode that is set
with `(?x)`, in which blanks and comments have no meaning. A backslash can stand before a mark of ASCII punctuation, or
in `\s` and in the escapes `\a` `\f` `\n` `\r` `\t` `\v` for control characters.

Left out are all other named classes, such as `\d` and `\p{..}`, word boundaries, `\A` and `\z`, characters by their
numbers, all other flags, named groups, classes inside classes with the operations on them, and comments inside classes.
A `Refusal` keeps the two reasons apart for which a text is not read: it is no pattern of the language, or it uses what
is left out.
-/

namespace Pluck.Pattern

/-- Why a text is not read as a pattern. -/
inductive Refusal
  /-- No pattern of the whole language begins in the way the text does, or the text breaks off in the middle of one. -/
  | malformed
  /-- The text uses a part of the language that is left out. Whether it is a pattern is not settled. -/
  | outside
  deriving Repr, DecidableEq

/-- A character in a class, escaped or not. -/
inductive Glyph
  /-- A character without an escape, which may have a meaning of its own. -/
  | bare (c : Char)
  /-- A character that stands for itself or has been escaped by a letter. -/
  | literal (c : Char)
  /-- The escape `\s` for the blank characters. -/
  | blank
  deriving Repr, DecidableEq

namespace Glyph

def char? : Glyph → Option Char
  | bare c | literal c => some c
  | blank => none

/-- The characters that the glyph adds to a class. -/
def ranges : Glyph → List (Char × Char)
  | bare c | literal c => [(c, c)]
  | blank => Text.blankRanges

/-- The glyph as a pattern of its own. -/
def pattern : Glyph → Pattern
  | bare c | literal c => .literal [c]
  | blank => .ofSet .blank

/-- The range from one glyph to another, which must not come before it. -/
def range (first last : Glyph) : Except Refusal (Char × Char) :=
  match first.char?, last.char? with
  | some low, some high => if low ≤ high then .ok (low, high) else .error .malformed
  | _, _ => .error .malformed

end Glyph

/-! ### Escapes -/

/-- The ASCII characters that a backslash turns into themselves: all but letters, digits and angle brackets. -/
def isEscapable (c : Char) : Bool :=
  c.toNat < 128 && !c.isAlphanum && c != '<' && c != '>'

/-- The characters whose escapes are left out: named classes, boundaries, and characters by their numbers. -/
def isLeftOut (c : Char) : Bool :=
  "dDwWSpPbBAzxuU<>".toList.contains c

/-- What a backslash makes of the character after it. -/
def escaped (c : Char) : Except Refusal Glyph :=
  match c with
  | 's' => .ok .blank
  | 'a' => .ok (.literal '\x07')
  | 'f' => .ok (.literal '\x0c')
  | 'n' => .ok (.literal '\n')
  | 'r' => .ok (.literal '\r')
  | 't' => .ok (.literal '\t')
  | 'v' => .ok (.literal '\x0b')
  | c => if isEscapable c then .ok (.literal c) else .error (if isLeftOut c then .outside else .malformed)

/-! ### Classes -/

open Glyph in
/-- The members of a class. A hyphen between two members makes a range, one at the end is a member. -/
def members : List Glyph → Except Refusal (List (Char × Char))
  | [] => .ok []
  | bare '[' :: _ => .error .outside
  | bare '&' :: bare '&' :: _ => .error .outside
  | bare '~' :: bare '~' :: _ => .error .outside
  | bare '-' :: bare '-' :: _ => .error .outside
  | [first, bare '-'] => .ok (first.ranges ++ [('-', '-')])
  | _ :: bare '-' :: bare '-' :: _ => .error .outside
  | first :: bare '-' :: last :: rest => do
    let range ← range first last
    let ranges ← members rest
    .ok (range :: ranges)
  | member :: rest => do
    let ranges ← members rest
    .ok (member.ranges ++ ranges)

/-- The hyphens with which a class may begin, or the closing bracket that is a member because it comes first. -/
def leadingMembers : List Glyph → List (Char × Char) × List Glyph
  | .bare ']' :: rest => ([(']', ']')], rest)
  | glyphs => ((glyphs.takeWhile (· == .bare '-')).flatMap Glyph.ranges, glyphs.dropWhile (· == .bare '-'))

/-- The class that has these glyphs between its brackets. -/
def classOf (glyphs : List Glyph) : Except Refusal CharSet := do
  let negated := glyphs.head? == some (.bare '^')
  let (leading, rest) := leadingMembers (if negated then glyphs.tail else glyphs)
  let ranges ← members rest
  let set := CharSet.ofRanges (leading ++ ranges)
  .ok (if negated then set.complement else set)

/-- A closing bracket ends a class, unless it is the first of its members. -/
def maybeClosed (glyphs : List Glyph) : Bool :=
  glyphs != [] && glyphs != [.bare '^']

/-! ### Counts -/

/-- A number below 2 ^ 32, with blanks around it, and what follows. -/
def number? (text : List Char) : Option (Nat × List Char) :=
  let text := text.dropWhile Text.isBlank
  let digits := text.takeWhile Char.isDigit
  let value := digits.foldl (fun value digit => 10 * value + (digit.toNat - '0'.toNat)) 0
  if digits.isEmpty || Nat.pow 2 32 ≤ value then none
  else some (value, (text.dropWhile Char.isDigit).dropWhile Text.isBlank)

/-- The greatest number of rounds, by what follows the least one. -/
def limit? (least : Nat) : List Char → Option (Option Nat)
  | [] => some (some least)
  | [','] => some none
  | ',' :: rest =>
    match number? rest with
    | some (most, []) => if least ≤ most then some (some most) else none
    | _ => none
  | _ => none

/-- The least and the greatest number of rounds of the count with this text between its braces. -/
def rounds? (text : List Char) : Option (Nat × Option Nat) := do
  let (least, rest) ← number? text
  let most ← limit? least rest
  some (least, most)

end Pluck.Pattern
