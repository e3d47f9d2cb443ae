import Pluck.Pattern.CharSet

/-!
# Which characters a set contains

Everything the proofs know about `CharSet`: a set made from ranges contains what lies in one of the ranges, and a
complement contains what the set does not. Both are read off the runs. The second needs the runs in increasing order
with a gap between one and the next, which is the invariant `Apart`; inserting a run keeps it.
-/

namespace Pluck

namespace CharSet

/-- The code point lies in one of the runs. -/
def Covers (runs : List (Nat × Nat)) (point : Nat) : Prop :=
  ∃ run ∈ runs, run.1 ≤ point ∧ point ≤ run.2

theorem contains_iff_covers (set : CharSet) (c : Char) : set.contains c = true ↔ Covers set.runs c.toNat := by
  simp [contains, Covers, List.any_eq_true]

@[simp] theorem not_covers_nil (point : Nat) : ¬Covers [] point := by
  simp [Covers]

theorem covers_cons {first last point : Nat} {later : List (Nat × Nat)} :
    Covers ((first, last) :: later) point ↔ (first ≤ point ∧ point ≤ last) ∨ Covers later point := by
  simp [Covers]

/-- The runs increase from `low` on, and between one run and the next there is a gap. -/
def Apart : Nat → List (Nat × Nat) → Prop
  | _, [] => True
  | low, (first, last) :: later => low ≤ first ∧ first ≤ last ∧ Apart (last + 2) later

theorem Apart.weaken {low lower : Nat} {runs : List (Nat × Nat)} (hruns : Apart low runs) (hle : lower ≤ low) :
    Apart lower runs := by
  cases runs with
  | nil => trivial
  | cons run later => exact ⟨Nat.le_trans hle hruns.1, hruns.2⟩

theorem Apart.le_of_covers {low point : Nat} {runs : List (Nat × Nat)} (hruns : Apart low runs)
    (hcovers : Covers runs point) : low ≤ point := by
  induction runs generalizing low with
  | nil => exact absurd hcovers (not_covers_nil point)
  | cons run later ih =>
    obtain ⟨hlow, hrun, hlater⟩ := hruns
    rcases covers_cons.1 hcovers with hinside | houtside
    · exact Nat.le_trans hlow hinside.1
    · have := ih hlater houtside
      omega

theorem apart_insertRun {least low high : Nat} {runs : List (Nat × Nat)} (hleast : least ≤ low) (hrun : low ≤ high)
    (hruns : Apart least runs) : Apart least (insertRun low high runs) := by
  induction runs generalizing least low high with
  | nil => exact ⟨hleast, hrun, trivial⟩
  | cons run later ih =>
    obtain ⟨first, last⟩ := run
    obtain ⟨hfirst, hlast, hlater⟩ := hruns
    rw [insertRun]
    split
    · exact ⟨hleast, hrun, by omega, hlast, hlater⟩
    · split
      · exact ⟨hfirst, hlast, ih (by omega) hrun hlater⟩
      · exact ih (by omega) (by omega) (hlater.weaken (by omega))

theorem covers_insertRun {least low high : Nat} {runs : List (Nat × Nat)} (hrun : low ≤ high)
    (hruns : Apart least runs) (point : Nat) :
    Covers (insertRun low high runs) point ↔ (low ≤ point ∧ point ≤ high) ∨ Covers runs point := by
  induction runs generalizing least low high with
  | nil => rw [insertRun, covers_cons]
  | cons run later ih =>
    obtain ⟨first, last⟩ := run
    obtain ⟨_, hlast, hlater⟩ := hruns
    rw [insertRun]
    split
    · rw [covers_cons]
    · split
      · rw [covers_cons, covers_cons, ih hrun hlater]
        exact or_left_comm
      · -- The two runs touch, so their hull holds nothing that is in neither.
        rw [ih (by omega) hlater, covers_cons, ← or_assoc]
        refine or_congr_left ?_
        omega

/-- Ranges whose first character does not come after the last one. -/
def Increasing (ranges : List (Char × Char)) : Prop :=
  ∀ range ∈ ranges, range.1 ≤ range.2

instance (ranges : List (Char × Char)) : Decidable (Increasing ranges) :=
  inferInstanceAs (Decidable (∀ range ∈ ranges, range.1 ≤ range.2))

theorem apart_ofRanges {ranges : List (Char × Char)} (hranges : Increasing ranges) :
    Apart 0 (ofRanges ranges).runs := by
  induction ranges with
  | nil => trivial
  | cons range later ih =>
    obtain ⟨hrange, hlater⟩ := List.forall_mem_cons.1 hranges
    exact apart_insertRun (Nat.zero_le _) hrange (ih hlater)

theorem contains_ofRanges {ranges : List (Char × Char)} (hranges : Increasing ranges) (c : Char) :
    (ofRanges ranges).contains c = ranges.any fun (first, last) => first ≤ c && c ≤ last := by
  rw [Bool.eq_iff_iff, contains_iff_covers]
  induction ranges with
  | nil => simp [ofRanges, Covers]
  | cons range later ih =>
    obtain ⟨hrange, hlater⟩ := List.forall_mem_cons.1 hranges
    have hinsert := covers_insertRun hrange (apart_ofRanges hlater) c.toNat
    rw [List.any_cons, Bool.or_eq_true, ← ih hlater, Bool.and_eq_true, decide_eq_true_eq, decide_eq_true_eq]
    exact hinsert

theorem le_of_covers_gaps {low point : Nat} {runs : List (Nat × Nat)} (hruns : Apart low runs)
    (hcovers : Covers (gaps low runs) point) : low ≤ point := by
  induction runs generalizing low with
  | nil =>
    rw [gaps] at hcovers
    split at hcovers
    · rcases covers_cons.1 hcovers with hinside | hcovers
      · exact hinside.1
      · exact absurd hcovers (not_covers_nil point)
    · exact absurd hcovers (not_covers_nil point)
  | cons run later ih =>
    obtain ⟨first, last⟩ := run
    obtain ⟨hfirst, hlast, hlater⟩ := hruns
    have hbeyond : Covers (gaps (last + 1) later) point → low ≤ point := by
      intro hcovers
      have := ih (hlater.weaken (by omega)) hcovers
      omega
    rw [gaps] at hcovers
    split at hcovers
    · rcases covers_cons.1 hcovers with hinside | hcovers
      · exact hinside.1
      · exact hbeyond hcovers
    · exact hbeyond hcovers

theorem covers_gaps {low point : Nat} {runs : List (Nat × Nat)} (hruns : Apart low runs) (hlow : low ≤ point)
    (hpoint : point ≤ lastCodePoint) : Covers (gaps low runs) point ↔ ¬Covers runs point := by
  induction runs generalizing low with
  | nil =>
    rw [gaps, if_pos (Nat.le_trans hlow hpoint), covers_cons]
    simp [hlow, hpoint]
  | cons run later ih =>
    obtain ⟨first, last⟩ := run
    obtain ⟨hfirst, hlast, hlater⟩ := hruns
    have hlater' : Apart (last + 1) later := hlater.weaken (by omega)
    rw [covers_cons, not_or]
    by_cases hpast : last + 1 ≤ point
    · have hgaps := ih hlater' hpast
      rw [gaps]
      split
      · rw [covers_cons, hgaps]
        constructor
        · rintro (hgap | hnot)
          · omega
          · exact ⟨by omega, hnot⟩
        · rintro ⟨_, hnot⟩
          exact Or.inr hnot
      · rw [hgaps]
        exact ⟨fun hnot => ⟨by omega, hnot⟩, And.right⟩
    · have hnone : ¬Covers (gaps (last + 1) later) point := fun h => hpast (le_of_covers_gaps hlater' h)
      have hnot : ¬Covers later point := fun h => hpast (hlater'.le_of_covers h)
      rw [gaps]
      split
      · rw [covers_cons]
        simp only [hnone, hnot, or_false, not_false_eq_true, and_true]
        omega
      · simp only [hnone, hnot, not_false_eq_true, and_true, false_iff]
        omega

theorem toNat_le_lastCodePoint (c : Char) : c.toNat ≤ lastCodePoint := by
  rcases c.valid with hlow | ⟨_, hhigh⟩
  · exact Nat.le_of_lt (Nat.lt_trans hlow (by decide))
  · exact Nat.le_of_lt_succ hhigh

theorem contains_complement {set : CharSet} (hset : Apart 0 set.runs) (c : Char) :
    set.complement.contains c = !set.contains c := by
  rw [Bool.eq_iff_iff, Bool.not_eq_true', Bool.eq_false_iff, ne_eq, contains_iff_covers, contains_iff_covers]
  exact covers_gaps hset (Nat.zero_le _) (toNat_le_lastCodePoint c)

/-- The blank characters of patterns are those of texts. -/
theorem contains_blank (c : Char) : blank.contains c = Text.isBlank c :=
  contains_ofRanges (by decide) c

end CharSet

end Pluck
