import Pluck.Text.Blank

/-!
# Sets of characters

A set of characters is kept as the runs of code points that it consists of, in increasing order, with a gap between one
run and the next. Every set has one such form, so that two sets with the same characters are equal however they were
written.
-/

namespace Pluck

/-- First and last code point of each run of characters. -/
structure CharSet where
  runs : List (Nat × Nat)
  deriving Repr, DecidableEq

namespace CharSet

def contains (set : CharSet) (c : Char) : Bool :=
  set.runs.any fun (first, last) => first ≤ c.toNat && c.toNat ≤ last

/-- Adds a run, joined with the runs that it overlaps or touches. -/
def insertRun (low high : Nat) : List (Nat × Nat) → List (Nat × Nat)
  | [] => [(low, high)]
  | (first, last) :: later =>
    if high + 1 < first then (low, high) :: (first, last) :: later
    else if last + 1 < low then (first, last) :: insertRun low high later
    else insertRun (min low first) (max high last) later

def ofRanges (ranges : List (Char × Char)) : CharSet :=
  ⟨ranges.foldr (fun (first, last) => insertRun first.toNat last.toNat) []⟩

def singleton (c : Char) : CharSet :=
  ⟨[(c.toNat, c.toNat)]⟩

def union (set other : CharSet) : CharSet :=
  ⟨set.runs.foldr (fun (first, last) => insertRun first last) other.runs⟩

def lastCodePoint : Nat := 0x10ffff

/-- The gaps between the runs from `low` on. -/
def gaps (low : Nat) : List (Nat × Nat) → List (Nat × Nat)
  | [] => if low ≤ lastCodePoint then [(low, lastCodePoint)] else []
  | (first, last) :: later => if low < first then (low, first - 1) :: gaps (last + 1) later else gaps (last + 1) later

def complement (set : CharSet) : CharSet :=
  ⟨gaps 0 set.runs⟩

/-- The only character of a set, if it has just one. -/
def character? (set : CharSet) : Option Char :=
  match set.runs with
  | [(first, last)] => if first = last then some (.ofNat first) else none
  | _ => none

/-- Every character but the line feed. -/
def dot : CharSet :=
  (singleton '\n').complement

def blank : CharSet :=
  ofRanges Text.blankRanges

theorem contains_singleton (c d : Char) : (singleton c).contains d = (d == c) := by
  rw [Bool.eq_iff_iff]
  simp only [singleton, contains, List.any_cons, List.any_nil, Bool.or_false, Bool.and_eq_true, decide_eq_true_eq,
    beq_iff_eq]
  constructor
  · intro h
    exact Char.toNat_inj.1 (by omega)
  · rintro rfl
    exact ⟨Nat.le_refl _, Nat.le_refl _⟩

end CharSet

end Pluck
