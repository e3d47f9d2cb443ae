import Pluck.Pattern.Program

/-!
# The search for a match

All ways through a program are followed at once, one character of the text after the other. At each place in the text
`Program.reach` lists the labels that the ways have come to, the most preferred first, and no label twice: of two ways
that meet, only the preferred one goes on. A way that is accepted ends those that are less preferred. So the time that a
match takes grows with the length of the text times the size of the program.
-/

namespace Pluck

/-- A place in a text, as far as anchors tell places apart. -/
structure Place where
  atStart : Bool
  atEnd : Bool
  deriving Repr, DecidableEq

/-- Where a way goes on without a character, the most preferred first. -/
def Node.onward (place : Place) : Node → List Label
  | start next => if place.atStart then [next] else []
  | stop next => if place.atEnd then [next] else []
  | split preferred other => [preferred, other]
  | accept | one .. => []

/-- Where a way goes on with a character. -/
def Node.after? (c : Char) : Node → Option Label
  | one set next => if set.contains c then some next else none
  | accept | start _ | stop _ | split .. => none

theorem Node.length_onward_le (place : Place) (node : Node) : (node.onward place).length ≤ 2 := by
  cases node <;> simp only [onward] <;> try split
  all_goals simp

namespace Program

def onward (program : Program) (place : Place) (label : Label) : List Label :=
  match program.nodes[label]? with
  | some node => node.onward place
  | none => []

def after? (program : Program) (c : Char) (label : Label) : Option Label :=
  program.nodes[label]?.bind (·.after? c)

def accepts (program : Program) (label : Label) : Bool :=
  program.nodes[label]? == some .accept

theorem length_onward_le (program : Program) (place : Place) (label : Label) :
    (program.onward place label).length ≤ 2 := by
  unfold onward
  split
  · exact Node.length_onward_le _ _
  · simp

/-- The labels that are reached without a character by ways that enter at the given ones, in the order of a search in
depth. Only the labels that `unseen` marks count. -/
def reach (program : Program) (place : Place) (unseen : Array Bool) : List Label → List Label
  | [] => []
  | label :: waiting =>
    if _ : unseen[label]? = some true then
      label :: program.reach place (unseen.setIfInBounds label false) (program.onward place label ++ waiting)
    else program.reach place unseen waiting
termination_by waiting => 3 * unseen.count true + waiting.length
decreasing_by
  · rename_i marked
    obtain ⟨inside, marked⟩ := Array.getElem?_eq_some_iff.1 marked
    have present : 0 < unseen.count true := Array.count_pos_iff.2 (marked ▸ Array.getElem_mem inside)
    have fewer : (unseen.setIfInBounds label false).count true = unseen.count true - 1 := by
      simp [Array.setIfInBounds, inside, Array.count_set, marked]
    have onward := program.length_onward_le place label
    simp only [List.length_append, List.length_cons]
    omega
  · simp only [List.length_cons]; omega

/-- Follows the ways that enter at the given labels. The answer is the end of the most preferred way that is accepted;
`best` is that of the ways that have been accepted so far. -/
def follow (program : Program) (offset : Nat) (best : Option Nat) (entered : List Label) (text : List Char) :
    Option Nat :=
  let reached := program.reach ⟨offset = 0, text.isEmpty⟩ (.replicate program.nodes.size true) entered
  let best := if reached.any program.accepts then some offset else best
  match text with
  | [] => best
  | c :: rest =>
    match (reached.takeWhile (!program.accepts ·)).filterMap (program.after? c) with
    | [] => best
    | entered => program.follow (offset + 1) best entered rest

/-- The end of the most preferred match that begins at the first character of `text`, which has the given offset. -/
def matchAt? (program : Program) (offset : Nat) (text : List Char) : Option Nat :=
  program.follow offset none [program.entry] text

/-- The first match that begins at `offset` or later, from its start to its end. -/
def findFrom? (program : Program) (offset : Nat) (text : List Char) : Option (Nat × Nat) :=
  match program.matchAt? offset text, text with
  | some stop, _ => some (offset, stop)
  | none, [] => none
  | none, _ :: rest => program.findFrom? (offset + 1) rest

end Program

namespace Pattern

/-- The pattern matches nowhere but at the start of a text. -/
def isAnchored : Pattern → Bool
  | start => true
  | group _ body => body.isAnchored
  | seq first _ => first.isAnchored
  | alt preferred other => preferred.isAnchored && other.isAnchored
  | empty | literal _ | one _ | stop | rounds .. => false

/-- The leftmost match of a text, from its start to its end. -/
def find? (pattern : Pattern) (text : List Char) : Option (Nat × Nat) :=
  let program := pattern.program
  if pattern.isAnchored then (program.matchAt? 0 text).map (0, ·) else program.findFrom? 0 text

end Pattern

end Pluck
