import Pluck.Pattern.Basic

/-!
# Programs that match patterns

A `Program` is a graph of nodes. A way through it from the entry to a node `accept` that takes the characters of a text
is a match of that text, and where a way divides, one branch is preferred. `Pattern.code` puts the nodes of a pattern
before a program, so that what follows a match of the pattern is a match of the program. It only adds nodes; those that
are there keep their labels.
-/

namespace Pluck

/-- The place of a node in a program. -/
abbrev Label := Nat

inductive Node
  | accept
  | one (set : CharSet) (next : Label)
  | start (next : Label)
  | stop (next : Label)
  | split (preferred other : Label)
  deriving Repr, DecidableEq

structure Program where
  nodes : Array Node
  entry : Label
  deriving Repr, DecidableEq

namespace Program

def accepting : Program :=
  ⟨#[.accept], 0⟩

/-- Adds a node and enters there. -/
def push (program : Program) (node : Node) : Program :=
  ⟨program.nodes.push node, program.nodes.size⟩

def enteredAt (program : Program) (label : Label) : Program :=
  { program with entry := label }

/-- Enters at a new node for another round at one label or its end at another. -/
def choose (program : Program) (greedy : Bool) (again done : Label) : Program :=
  program.push (if greedy then .split again done else .split done again)

end Program

namespace Pattern

/-- The number of nodes that `code` adds. -/
def size : Pattern → Nat
  | empty => 0
  | literal text => text.length
  | one _ | start | stop => 1
  | group _ body => body.size
  | rounds body least (some most) _ => least * body.size + (most - least) * (body.size + 1)
  | rounds body 0 none _ => if body.mayBeEmpty then body.size + 2 else body.size + 1
  | rounds body least none _ => least * body.size + 1
  | seq first rest => first.size + rest.size
  | alt preferred other => preferred.size + other.size + 1

/-- A round, and after it the choice between another one and the program that follows. The program is entered at the
choice, and the label is that of the round. `round` adds `size` nodes. -/
def loop (round : Program → Program) (size : Nat) (greedy : Bool) (after : Program) : Program × Label :=
  let program := round (after.enteredAt (after.nodes.size + size))
  (program.choose greedy program.entry after.entry, program.entry)

/-- Any number of rounds. If a round may be empty, the choice before the first one is apart from that after a round, so
that a round without a character does not keep others from being tried. -/
def anyNumber (round : Program → Program) (size : Nat) (mayBeEmpty greedy : Bool) (after : Program) : Program :=
  let (program, entry) := loop round size greedy after
  if mayBeEmpty then program.choose greedy entry after.entry else program

def atLeastOnce (round : Program → Program) (size : Nat) (greedy : Bool) (after : Program) : Program :=
  let (program, entry) := loop round size greedy after
  program.enteredAt entry

/-- At most `count` rounds, each of which may be the last. -/
def atMost (round : Program → Program) (greedy : Bool) (count : Nat) (after : Program) : Program :=
  Nat.repeat (fun later => let program := round later; program.choose greedy program.entry after.entry) count after

/-- The pattern's nodes before a program. -/
def code : Pattern → Program → Program
  | empty, after => after
  | literal text, after => text.foldr (fun c later => later.push (.one (.singleton c) later.entry)) after
  | one set, after => after.push (.one set after.entry)
  | start, after => after.push (.start after.entry)
  | stop, after => after.push (.stop after.entry)
  | group _ body, after => body.code after
  | rounds body least (some most) greedy, after =>
    Nat.repeat body.code least (atMost body.code greedy (most - least) after)
  | rounds body 0 none greedy, after => anyNumber body.code body.size body.mayBeEmpty greedy after
  | rounds body (least + 1) none greedy, after =>
    Nat.repeat body.code least (atLeastOnce body.code body.size greedy after)
  | seq first rest, after => first.code (rest.code after)
  | alt preferred other, after =>
    let second := other.code after
    let first := preferred.code (second.enteredAt after.entry)
    first.push (.split first.entry second.entry)

/-! ### The number of nodes -/

theorem size_repeat {step : Program → Program} {count : Nat}
    (h : ∀ program, (step program).nodes.size = program.nodes.size + count) (times : Nat) (program : Program) :
    (Nat.repeat step times program).nodes.size = program.nodes.size + times * count := by
  induction times with
  | zero => simp [Nat.repeat]
  | succ times ih => rw [Nat.repeat, h, ih, Nat.succ_mul, Nat.add_assoc]

theorem size_loop {round : Program → Program} {size : Nat}
    (h : ∀ program, (round program).nodes.size = program.nodes.size + size) (greedy : Bool) (after : Program) :
    (loop round size greedy after).1.nodes.size = after.nodes.size + (size + 1) := by
  simp [loop, Program.choose, Program.push, Program.enteredAt, h, Nat.add_assoc]

theorem size_literal (text : List Char) (after : Program) :
    ((literal text).code after).nodes.size = after.nodes.size + text.length := by
  induction text with
  | nil => rfl
  | cons c rest ih =>
    simp only [code, List.foldr_cons, Program.push, Array.size_push, List.length_cons] at ih ⊢
    omega

theorem size_code (pattern : Pattern) (after : Program) :
    (pattern.code after).nodes.size = after.nodes.size + pattern.size := by
  fun_induction size pattern generalizing after with
  | case1 => rfl
  | case2 text => exact size_literal text after
  | case3 | case4 | case5 => simp [code, Program.push]
  | case6 _ body ih => exact ih after
  | case7 body least most greedy ih =>
    have option (program : Program) :
        ((body.code program).choose greedy (body.code program).entry after.entry).nodes.size
          = program.nodes.size + (body.size + 1) := by
      simp [Program.choose, Program.push, ih, Nat.add_assoc]
    rw [code, size_repeat ih, atMost, size_repeat option]
    omega
  | case8 body greedy h ih =>
    simp only [code, anyNumber, h, if_true, Program.choose, Program.push, Array.size_push]
    rw [size_loop ih]
    omega
  | case9 body greedy h ih => simp [code, anyNumber, h, size_loop ih]
  | case10 body least greedy h ih =>
    obtain _ | least := least
    · exact absurd rfl h
    · rw [code, size_repeat ih, atLeastOnce]
      simp only [Program.enteredAt, size_loop ih, Nat.succ_mul]
      omega
  | case11 first rest ihFirst ihRest => rw [code, ihFirst, ihRest]; omega
  | case12 preferred other ihPreferred ihOther =>
    simp [code, Program.push, Program.enteredAt, ihPreferred, ihOther]
    omega

def program (pattern : Pattern) : Program :=
  pattern.code .accepting

end Pattern

end Pluck
