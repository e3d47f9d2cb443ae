import Pluck.Pattern.Class

/-!
# From the text of a pattern to the pattern

`Pattern.read` takes the characters of a text one by one. A `Progress` is what has been made of them: the mode tells
what the next character can mean, a `Draft` holds the part of the innermost group that has been read, and the drafts of
the groups around it wait on a stack. Groups that are counted are numbered in the order of their opening.

In the verbose mode, blanks have no meaning, and a number sign begins a comment that goes on to the end of its line.
The mode lasts to the end of the group in which it is set.
-/

namespace Pluck.Pattern

/-- A group that is being read: its number if it is counted, its finished branches, and the items of the branch that is
not finished. Branches and items are listed from last to first. An item without a pattern stands for a change of the
mode, which cannot be repeated. -/
structure Draft where
  number : Option Nat
  branches : List Pattern
  items : List (Option Pattern)
  deriving Repr, DecidableEq

namespace Draft

def opened (number : Option Nat) : Draft :=
  ⟨number, [], []⟩

def add (draft : Draft) (item : Option Pattern) : Draft :=
  { draft with items := item :: draft.items }

/-- Finishes a branch and begins the next one. -/
def nextBranch (draft : Draft) : Draft :=
  { draft with branches := concat (draft.items.reverse.filterMap id) :: draft.branches, items := [] }

def finish (draft : Draft) : Pattern :=
  let body := alternation draft.nextBranch.branches.reverse
  match draft.number with
  | some number => .group number body
  | none => body

/-- The draft with its last item repeated. -/
def repeated (draft : Draft) (least : Nat) (most : Option Nat) (greedy : Bool) : Except Refusal Draft :=
  match draft.items with
  | some body :: items => .ok { draft with items := some (body.repeated least most greedy) :: items }
  | none :: _ | [] => .error .malformed

end Draft

/-- What the next character can mean. -/
inductive Mode
  /-- Anything may begin. -/
  | ready
  /-- A backslash has been read. -/
  | escape
  /-- An opening parenthesis has been read, and a question mark may follow. -/
  | group
  /-- What has been read after the question mark of a group. -/
  | flags (text : List Char)
  /-- What has been read after an opening brace. -/
  | count (text : List Char)
  /-- A repetition has been read, and a question mark may follow that makes it lazy. After a count in braces, there may
  be blanks before the question mark in the verbose mode. -/
  | repetition (least : Nat) (most : Option Nat) (counted : Bool)
  /-- What has been read of a class. -/
  | members (glyphs : List Glyph)
  | memberEscape (glyphs : List Glyph)
  deriving Repr, DecidableEq

/-- A text that has been read in part. The stack has the drafts of the groups around, the innermost first, each with
whether the verbose mode was set where the group within it began. -/
structure Progress where
  verbose : Bool
  inComment : Bool
  mode : Mode
  /-- How many groups have been numbered. -/
  count : Nat
  draft : Draft
  around : List (Draft × Bool)
  deriving Repr, DecidableEq

namespace Progress

def initial : Progress :=
  ⟨false, false, .ready, 0, .opened none, []⟩

def enter (progress : Progress) (mode : Mode) : Progress :=
  { progress with mode }

/-- Adds an item to the branch, after which anything may begin. -/
def add (progress : Progress) (item : Option Pattern) : Progress :=
  { progress with mode := .ready, draft := progress.draft.add item }

/-- Opens a group with the verbose mode set or not. -/
def opened (progress : Progress) (number : Option Nat) (verbose : Bool) : Progress :=
  { progress with
    verbose
    mode := .ready
    draft := .opened number
    around := (progress.draft, progress.verbose) :: progress.around }

def openedCounted (progress : Progress) : Progress :=
  { progress.opened (some progress.count) progress.verbose with count := progress.count + 1 }

/-- Ends the innermost group and adds it to the one around it. -/
def closed (progress : Progress) : Except Refusal Progress :=
  match progress.around with
  | [] => .error .malformed
  | (outer, verbose) :: around =>
    .ok { progress with verbose, mode := .ready, draft := outer.add progress.draft.finish, around }

def repeated (progress : Progress) (least : Nat) (most : Option Nat) (greedy : Bool) : Except Refusal Progress :=
  (progress.draft.repeated least most greedy).map fun draft => { progress with mode := .ready, draft }

/-- Passes over a blank and over the beginning of a comment where the verbose mode is set. -/
def unlessBlank (progress : Progress) (c : Char) (otherwise : Except Refusal Progress) : Except Refusal Progress :=
  if progress.verbose && c == '#' then .ok { progress with inComment := true }
  else if progress.verbose && Text.isBlank c then .ok progress
  else otherwise

/-- A character where anything may begin. -/
def plain (progress : Progress) (c : Char) : Except Refusal Progress :=
  match c with
  | '\\' => .ok (progress.enter .escape)
  | '(' => .ok (progress.enter .group)
  | ')' => progress.closed
  | '[' => .ok (progress.enter (.members []))
  | '\x7b' => .ok (progress.enter (.count []))
  | '*' => .ok (progress.enter (.repetition 0 none false))
  | '+' => .ok (progress.enter (.repetition 1 none false))
  | '?' => .ok (progress.enter (.repetition 0 (some 1) false))
  | '|' => .ok { progress with mode := .ready, draft := progress.draft.nextBranch }
  | '.' => .ok (progress.add (some (.ofSet .dot)))
  | '^' => .ok (progress.add (some .start))
  | '$' => .ok (progress.add (some .stop))
  | c => .ok (progress.add (some (.literal [c])))

/-- Whether flags set the verbose mode, where they do nothing else. -/
def verbosity? : List Char → Option Bool
  | ['x'] => some true
  | ['-', 'x'] => some false
  | _ => none

/-- A character after the question mark of a group. A parenthesis makes flags last for what is left of the group around
them, a colon for a group of their own. -/
def flag (progress : Progress) (text : List Char) (c : Char) : Except Refusal Progress :=
  match c with
  | ')' =>
    match verbosity? text with
    | some verbose => .ok { progress.add none with verbose }
    | none => .error .outside
  | ':' =>
    match if text.isEmpty then some progress.verbose else verbosity? text with
    | some verbose => .ok (progress.opened none verbose)
    | none => .error .outside
  | c => .ok (progress.enter (.flags (text ++ [c])))

def counted (progress : Progress) (text : List Char) (c : Char) : Except Refusal Progress :=
  if c = '\x7d' then
    match rounds? text with
    | some (least, most) => .ok (progress.enter (.repetition least most true))
    | none => .error .malformed
  else .ok (progress.enter (.count (text ++ [c])))

def member (progress : Progress) (glyphs : List Glyph) (c : Char) : Except Refusal Progress :=
  if c = ']' && maybeClosed glyphs then (classOf glyphs).map fun set => progress.add (some (.ofSet set))
  else if c = '\\' then .ok (progress.enter (.memberEscape glyphs))
  else .ok (progress.enter (.members (glyphs ++ [.bare c])))

/-- Takes one more character. -/
def step (progress : Progress) (c : Char) : Except Refusal Progress :=
  if progress.inComment then .ok { progress with inComment := c != '\n' }
  else
    match progress.mode with
    | .ready => progress.unlessBlank c (progress.plain c)
    | .escape => (escaped c).map fun glyph => progress.add (some glyph.pattern)
    | .group =>
      progress.unlessBlank c
        (if c = '?' then .ok (progress.enter (.flags [])) else progress.openedCounted.plain c)
    | .flags text => progress.flag text c
    | .count text => progress.unlessBlank c (progress.counted text c)
    | .repetition least most true =>
      progress.unlessBlank c
        (if c = '?' then progress.repeated least most false
        else (progress.repeated least most true).bind (·.plain c))
    | .repetition least most false =>
      if c = '?' then progress.repeated least most false
      else (progress.repeated least most true).bind fun progress => progress.unlessBlank c (progress.plain c)
    | .members glyphs =>
      if progress.verbose && c == '#' then .error .outside
      else progress.unlessBlank c (progress.member glyphs c)
    | .memberEscape glyphs => (escaped c).map fun glyph => progress.enter (.members (glyphs ++ [glyph]))

def run (progress : Progress) (text : List Char) : Except Refusal Progress :=
  text.foldlM step progress

/-- The pattern that has been read, if no group is open and nothing else has been begun. -/
def finish (progress : Progress) : Except Refusal Pattern :=
  match progress.mode, progress.around with
  | .ready, [] => .ok progress.draft.finish
  | .repetition least most _, [] => (progress.draft.repeated least most true).map Draft.finish
  | .flags _, _ => .error .outside
  | _, _ => .error .malformed

end Progress

/-- The pattern that a text writes, if it keeps to the part of the language that is read here. -/
def read (text : String) : Except Refusal Pattern :=
  (Progress.initial.run text.toList).bind Progress.finish

/-- The text ends within a comment, so that what is written after it belongs to the comment too. -/
def endsInComment (text : String) : Bool :=
  match Progress.initial.run text.toList with
  | .ok progress => progress.inComment
  | .error _ => false

end Pluck.Pattern
