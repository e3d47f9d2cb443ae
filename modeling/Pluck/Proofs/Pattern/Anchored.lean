import Pluck.Lexicon
import Pluck.Proofs.Pattern.CharSet

/-!
# Rules for one character and for a run of characters

The rules of a query come in two shapes, and both are anchored at the start: a single character, and as many characters
of a set as follow each other. Here the programs of the two shapes are followed through an arbitrary text, which gives
what `Rule.length?` answers for them. Whether a run may be empty makes no difference to a rule, since an empty match is
no match of a rule.
-/

namespace Pluck

namespace Pattern

def anchoredCharacter (c : Char) : Pattern :=
  .seq .start (.literal [c])

/-- As many characters of a set as follow each other from the start of the text, at least `least`. -/
def anchoredRun (set : CharSet) (least : Nat) : Pattern :=
  .seq .start (.rounds (.one set) least none true)

/-- The program of a run. The anchor leads to the label `first`: to the character if a run is not empty, and to the
choice between a further character and the end otherwise. -/
def runProgram (set : CharSet) (first : Label) : Program :=
  ⟨#[.accept, .one set 2, .split 1 0, .start first], 3⟩

theorem program_anchoredRun_one (set : CharSet) : (anchoredRun set 1).program = runProgram set 1 := rfl

theorem program_anchoredRun_zero (set : CharSet) : (anchoredRun set 0).program = runProgram set 2 := rfl

/-! ### Following the program of a run -/

variable (set : CharSet) (first : Label)

theorem after?_runProgram (c : Char) :
    (runProgram set first).after? c 1 = if set.contains c then some 2 else none := rfl

/-- At the choice, all labels but the anchor are reached. -/
theorem reach_runProgram (place : Place) :
    (runProgram set first).reach place (.replicate 4 true) [2] = [2, 1, 0] := by
  simp [Program.reach, Program.onward, Node.onward, runProgram]

/-- A way at the choice goes on exactly with the characters of the set. -/
theorem filterMap_after?_runProgram (c : Char) :
    ([2, 1, 0].takeWhile (!(runProgram set first).accepts ·)).filterMap ((runProgram set first).after? c) =
      if set.contains c then [2] else [] := by
  have hchoice : (runProgram set first).after? c 2 = none := rfl
  have hkept : [2, 1, 0].takeWhile (!(runProgram set first).accepts ·) = [2, 1] := by
    simp [Program.accepts, runProgram]
  rw [hkept, List.filterMap_cons_none hchoice]
  by_cases h : set.contains c <;> simp [after?_runProgram, h]

/-- From the choice, the run goes on as far as there are characters of the set. -/
theorem follow_runProgram (offset : Nat) (best : Option Nat) (text : List Char) :
    (runProgram set first).follow offset best [2] text = some (offset + (text.takeWhile set.contains).length) := by
  have haccepts : [2, 1, 0].any (runProgram set first).accepts = true := by simp [Program.accepts, runProgram]
  induction text generalizing offset best with
  | nil =>
    rw [Program.follow, show (runProgram set first).nodes.size = 4 from rfl, reach_runProgram]
    simp only [haccepts, if_true, List.takeWhile_nil, List.length_nil, Nat.add_zero]
  | cons c rest ih =>
    rw [Program.follow, show (runProgram set first).nodes.size = 4 from rfl, reach_runProgram]
    simp only [haccepts, if_true, filterMap_after?_runProgram]
    by_cases h : set.contains c
    · rw [List.takeWhile_cons_of_pos h, List.length_cons]
      simp only [h, if_true, ih]
      congr 1
      omega
    · rw [List.takeWhile_cons_of_neg h]
      simp [h]

/-- The first step of a run. What `reached` says about the labels at the start differs between a run that may be empty
and one that may not; that the way then goes on at the choice does not. -/
theorem matchAt?_of_reach {reached : List Label}
    (hreach : ∀ place, place.atStart = true → (runProgram set first).reach place (.replicate 4 true) [3] = reached)
    (hgoes : ∀ c, (reached.takeWhile (!(runProgram set first).accepts ·)).filterMap ((runProgram set first).after? c) =
      if set.contains c then [2] else []) (text : List Char) :
    (runProgram set first).matchAt? 0 text =
      if (text.takeWhile set.contains).length = 0 then
        if reached.any (runProgram set first).accepts then some 0 else none
      else some (text.takeWhile set.contains).length := by
  rw [Program.matchAt?, Program.follow.eq_def, show (runProgram set first).nodes.size = 4 from rfl,
    show (runProgram set first).entry = 3 from rfl, hreach _ rfl]
  cases text with
  | nil => simp
  | cons c rest =>
    by_cases h : set.contains c
    · simp [hgoes, h, follow_runProgram, Nat.add_comm]
    · simp [hgoes, h]

theorem matchAt?_runProgram_two (text : List Char) :
    (runProgram set 2).matchAt? 0 text = some (text.takeWhile set.contains).length := by
  have hreach : ∀ place, place.atStart = true →
      (runProgram set 2).reach place (.replicate 4 true) [3] = [3, 2, 1, 0] := by
    intro place hplace
    simp [Program.reach, Program.onward, Node.onward, runProgram, hplace]
  have haccepts : [3, 2, 1, 0].any (runProgram set 2).accepts = true := by simp [Program.accepts, runProgram]
  rw [matchAt?_of_reach set 2 hreach, haccepts]
  · by_cases h : (text.takeWhile set.contains).length = 0 <;> simp only [h, if_true, if_false]
  · intro c
    rw [List.takeWhile_cons_of_pos (by simp [Program.accepts, runProgram]),
      List.filterMap_cons_none (show (runProgram set 2).after? c 3 = none from rfl), filterMap_after?_runProgram]

theorem matchAt?_runProgram_one (text : List Char) :
    (runProgram set 1).matchAt? 0 text =
      if (text.takeWhile set.contains).length = 0 then none else some (text.takeWhile set.contains).length := by
  have hreach : ∀ place, place.atStart = true →
      (runProgram set 1).reach place (.replicate 4 true) [3] = [3, 1] := by
    intro place hplace
    simp [Program.reach, Program.onward, Node.onward, runProgram, hplace]
  have haccepts : [3, 1].any (runProgram set 1).accepts = false := by simp [Program.accepts, runProgram]
  rw [matchAt?_of_reach set 1 hreach, haccepts]
  · simp only [Bool.false_eq_true, if_false]
  · intro c
    have hkept : [3, 1].takeWhile (!(runProgram set 1).accepts ·) = [3, 1] := by
      simp [Program.accepts, runProgram]
    rw [hkept, List.filterMap_cons_none (show (runProgram set 1).after? c 3 = none from rfl)]
    by_cases h : set.contains c <;> simp [after?_runProgram, h]

/-! ### Rules of the two shapes -/

/-- The rule for a run takes all of it, whether or not its pattern lets a run be empty. -/
theorem length?_anchoredRun {least : Nat} (hleast : least ≤ 1) (kind : TokenKind) (text : List Char) :
    (Rule.mk (anchoredRun set least) kind).length? text =
      if (text.takeWhile set.contains).length = 0 then none else some (text.takeWhile set.contains).length := by
  have hanchored : ∀ least, (anchoredRun set least).isAnchored = true := fun _ => rfl
  rw [Rule.length?, find?, hanchored, if_pos rfl]
  obtain rfl | rfl : least = 0 ∨ least = 1 := by omega
  · rw [program_anchoredRun_zero, matchAt?_runProgram_two]
    cases (text.takeWhile set.contains).length <;> rfl
  · rw [program_anchoredRun_one, matchAt?_runProgram_one]
    cases (text.takeWhile set.contains).length <;> rfl

/-- The program of one character: the anchor at label 2 leads to the character at label 1, which leads to the end. -/
def characterProgram (c : Char) : Program :=
  ⟨#[.accept, .one (.singleton c) 0, .start 1], 2⟩

theorem program_anchoredCharacter (c : Char) : (anchoredCharacter c).program = characterProgram c := rfl

theorem follow_characterProgram_end (c : Char) (offset : Nat) (best : Option Nat) (text : List Char) :
    (characterProgram c).follow offset best [0] text = some offset := by
  have hreach : ∀ place, (characterProgram c).reach place (.replicate 3 true) [0] = [0] := by
    intro place
    simp [Program.reach, Program.onward, Node.onward, characterProgram]
  rw [Program.follow.eq_def, show (characterProgram c).nodes.size = 3 from rfl, hreach]
  cases text <;> simp [Program.accepts, characterProgram]

theorem matchAt?_characterProgram (c : Char) (text : List Char) :
    (characterProgram c).matchAt? 0 text = if text.head? = some c then some 1 else none := by
  have hreach : ∀ place, place.atStart = true →
      (characterProgram c).reach place (.replicate 3 true) [2] = [2, 1] := by
    intro place hplace
    simp [Program.reach, Program.onward, Node.onward, characterProgram, hplace]
  have haccepts : [2, 1].any (characterProgram c).accepts = false := by simp [Program.accepts, characterProgram]
  have hgoes : ∀ d, ([2, 1].takeWhile (!(characterProgram c).accepts ·)).filterMap ((characterProgram c).after? d) =
      if d = c then [0] else [] := by
    intro d
    have hkept : [2, 1].takeWhile (!(characterProgram c).accepts ·) = [2, 1] := by
      simp [Program.accepts, characterProgram]
    rw [hkept]
    by_cases h : d = c <;>
      simp [Program.after?, Node.after?, characterProgram, CharSet.contains_singleton, h]
  rw [Program.matchAt?, Program.follow.eq_def, show (characterProgram c).nodes.size = 3 from rfl,
    show (characterProgram c).entry = 2 from rfl, hreach _ rfl]
  cases text with
  | nil => simp [haccepts]
  | cons d rest =>
    by_cases h : d = c
    · simp [haccepts, hgoes, h, follow_characterProgram_end]
    · simp [haccepts, hgoes, h]

theorem length?_anchoredCharacter (c : Char) (kind : TokenKind) (text : List Char) :
    (Rule.mk (anchoredCharacter c) kind).length? text = if text.head? = some c then some 1 else none := by
  rw [Rule.length?, find?, show (anchoredCharacter c).isAnchored = true from rfl, if_pos rfl,
    program_anchoredCharacter, matchAt?_characterProgram]
  by_cases h : text.head? = some c <;> simp [h]

end Pattern

end Pluck
