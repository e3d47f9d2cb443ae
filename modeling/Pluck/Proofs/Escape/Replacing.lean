import Mathlib.Data.List.Infix
import Pluck.Escape

/-!
# Replacing several texts one after the other

Decoding and encoding go through a list of pairs, and each pair takes the text that the pair before it has left. For the
lists in use this comes to one pass: an old text at the start is replaced, a character at which no old text begins
stays, and what follows is replaced on its own (`replaceEach_append`, `replaceEach_cons`). These two equations and
`old_induction`, which takes a text apart in the same way, are all that is needed of the replacements from then on.

What makes it one pass is said by `Separate`. A new text shares no character with an old one, so that what has been
replaced takes no part in a later replacement. And no old text begins inside an old text, its own start excepted, so
that replacing one leaves the others alone.
-/

namespace Pluck.Escape

variable {old new : List Char}

/-! ### Replacing one text -/

theorem replaceFrom_passed (passed rest : List Char) :
    replaceFrom old new passed.length (passed ++ rest) = replaceFrom old new 0 rest := by
  induction passed with
  | nil => rfl
  | cons c passed ih => rw [List.length_cons, List.cons_append, replaceFrom, ih]

theorem replaceFrom_append (hold : old ≠ []) (rest : List Char) :
    replaceFrom old new 0 (old ++ rest) = new ++ replaceFrom old new 0 rest := by
  obtain ⟨c, inner, hinner⟩ := List.exists_cons_of_ne_nil hold
  have hbegin : old.isPrefixOf (c :: (inner ++ rest)) := by
    rw [List.isPrefixOf_iff_prefix, hinner]
    exact List.prefix_append (c :: inner) rest
  have hpassed : old.length - 1 = inner.length := by rw [hinner, List.length_cons, Nat.add_sub_cancel]
  have hstart : old ++ rest = c :: (inner ++ rest) := by rw [hinner, List.cons_append]
  rw [hstart, replaceFrom, if_pos hbegin, hpassed, replaceFrom_passed]

theorem replaceFrom_cons {c : Char} {rest : List Char} (hstart : ¬old <+: c :: rest) :
    replaceFrom old new 0 (c :: rest) = c :: replaceFrom old new 0 rest := by
  rw [replaceFrom, if_neg]
  rwa [List.isPrefixOf_iff_prefix]

/-- Two texts of which one goes on with the other. -/
def Comparable (left right : List Char) : Prop :=
  left <+: right ∨ right <+: left

instance (left right : List Char) : Decidable (Comparable left right) :=
  inferInstanceAs (Decidable (left <+: right ∨ right <+: left))

theorem not_comparable_of_disjoint {left right : List Char} (hleft : left ≠ []) (hright : right ≠ [])
    (hdisjoint : ∀ c ∈ left, c ∉ right) : ¬Comparable left right := by
  rintro (hbegin | hbegin)
  · have hmem := List.head_mem hleft
    exact hdisjoint _ hmem (hbegin.subset hmem)
  · have hmem := List.head_mem hright
    exact hdisjoint _ (hbegin.subset hmem) hmem

theorem comparable_of_prefix_append {left right rest : List Char} (hbegin : right <+: left ++ rest) :
    Comparable left right :=
  List.prefix_or_prefix_of_prefix (List.prefix_append left rest) hbegin

/-- A text stays if the old text begins nowhere in it, also not with what comes after it. -/
theorem replaceFrom_append_of_apart {left : List Char}
    (hleft : ∀ inner, inner <:+ left → inner ≠ [] → ¬Comparable inner old) (rest : List Char) :
    replaceFrom old new 0 (left ++ rest) = left ++ replaceFrom old new 0 rest := by
  induction left with
  | nil => rfl
  | cons c left ih =>
    have hstart : ¬old <+: c :: (left ++ rest) := fun hbegin =>
      hleft (c :: left) List.suffix_rfl (List.cons_ne_nil c left) (comparable_of_prefix_append hbegin)
    rw [List.cons_append, replaceFrom_cons hstart,
      ih fun inner hinner => hleft inner (hinner.trans (List.suffix_cons c left)), List.cons_append]

/-- A start of the result that shares no character with the new text was there before. -/
theorem prefix_of_prefix_replaceFrom {start text : List Char} (hnew : new ≠ []) (hstart : ∀ c ∈ new, c ∉ start)
    (hbegin : start <+: replaceFrom old new 0 text) : start <+: text := by
  induction start generalizing text with
  | nil => exact List.nil_prefix
  | cons d start ih =>
    cases text with
    | nil => exact absurd (List.prefix_nil.1 hbegin) (List.cons_ne_nil d start)
    | cons c rest =>
      by_cases hold : old.isPrefixOf (c :: rest)
      · obtain ⟨n, more, rfl⟩ := List.exists_cons_of_ne_nil hnew
        rw [replaceFrom, if_pos hold, List.cons_append, List.cons_prefix_cons] at hbegin
        rw [hbegin.1] at hstart
        exact absurd List.mem_cons_self (hstart n List.mem_cons_self)
      · rw [replaceFrom, if_neg hold, List.cons_prefix_cons] at hbegin
        obtain ⟨rfl, hrest⟩ := hbegin
        exact List.cons_prefix_cons.2 ⟨rfl, ih (fun e he hmem => hstart e he (List.mem_cons_of_mem d hmem)) hrest⟩

/-! ### Replacing one after the other -/

def replaceEach (pairs : List (List Char × List Char)) (text : List Char) : List Char :=
  pairs.foldl (fun text (old, new) => replaceFrom old new 0 text) text

variable {pairs : List (List Char × List Char)} {pair : List Char × List Char}

theorem replaceEach_cons_pair (pair : List Char × List Char) (pairs : List (List Char × List Char))
    (text : List Char) : replaceEach (pair :: pairs) text = replaceEach pairs (replaceFrom pair.1 pair.2 0 text) :=
  rfl

@[simp] theorem replaceEach_nil (pairs : List (List Char × List Char)) : replaceEach pairs [] = [] := by
  induction pairs with
  | nil => rfl
  | cons pair pairs ih => rw [replaceEach_cons_pair, replaceFrom, ih]

theorem replaceEach_append_of_apart {left : List Char}
    (hleft : ∀ pair ∈ pairs, ∀ inner, inner <:+ left → inner ≠ [] → ¬Comparable inner pair.1) (rest : List Char) :
    replaceEach pairs (left ++ rest) = left ++ replaceEach pairs rest := by
  induction pairs generalizing rest with
  | nil => rfl
  | cons pair pairs ih =>
    rw [replaceEach_cons_pair, replaceFrom_append_of_apart (hleft pair List.mem_cons_self),
      ih fun other hother => hleft other (List.mem_cons_of_mem pair hother), replaceEach_cons_pair]

/-- The replacements of the pairs keep out of each other's way. -/
structure Separate (pairs : List (List Char × List Char)) : Prop where
  old_ne_nil : ∀ pair ∈ pairs, pair.1 ≠ []
  new_ne_nil : ∀ pair ∈ pairs, pair.2 ≠ []
  disjoint : ∀ pair ∈ pairs, ∀ other ∈ pairs, ∀ c ∈ pair.2, c ∉ other.1
  /-- Inside an old text no old text begins, and at its start no other one. -/
  apart : ∀ pair ∈ pairs, ∀ other ∈ pairs, ∀ inner ∈ pair.1.tails, inner ≠ [] → Comparable inner other.1 →
    inner = pair.1 ∧ pair = other

namespace Separate

theorem tail (hpairs : Separate (pair :: pairs)) : Separate pairs where
  old_ne_nil _ hmem := hpairs.old_ne_nil _ (List.mem_cons_of_mem _ hmem)
  new_ne_nil _ hmem := hpairs.new_ne_nil _ (List.mem_cons_of_mem _ hmem)
  disjoint _ hmem _ hother := hpairs.disjoint _ (List.mem_cons_of_mem _ hmem) _ (List.mem_cons_of_mem _ hother)
  apart _ hmem _ hother := hpairs.apart _ (List.mem_cons_of_mem _ hmem) _ (List.mem_cons_of_mem _ hother)

theorem eq_of_comparable (hpairs : Separate pairs) (hpair : pair ∈ pairs) {other : List Char × List Char}
    (hother : other ∈ pairs) {inner : List Char} (hinner : inner <:+ pair.1) (hne : inner ≠ [])
    (hcomparable : Comparable inner other.1) : inner = pair.1 ∧ pair = other :=
  hpairs.apart pair hpair other hother inner ((List.mem_tails _ _).2 hinner) hne hcomparable

/-- A text that has been put in takes no part in a later replacement. -/
theorem not_comparable_new (hpairs : Separate pairs) (hpair : pair ∈ pairs) {other : List Char × List Char}
    (hother : other ∈ pairs) {inner : List Char} (hinner : inner <:+ pair.2) (hne : inner ≠ []) :
    ¬Comparable inner other.1 :=
  not_comparable_of_disjoint hne (hpairs.old_ne_nil other hother) fun c hc =>
    hpairs.disjoint pair hpair other hother c (hinner.subset hc)

end Separate

theorem replaceEach_append_new (hpairs : Separate pairs) (hpair : pair ∈ pairs) (rest : List Char) :
    replaceEach pairs (pair.2 ++ rest) = pair.2 ++ replaceEach pairs rest :=
  replaceEach_append_of_apart (fun _ hother _ hinner hne => hpairs.not_comparable_new hpair hother hinner hne) rest

theorem replaceEach_append (hpairs : Separate pairs) (hpair : pair ∈ pairs) (rest : List Char) :
    replaceEach pairs (pair.1 ++ rest) = pair.2 ++ replaceEach pairs rest := by
  induction pairs generalizing rest with
  | nil => cases hpair
  | cons first pairs ih =>
    rw [replaceEach_cons_pair, replaceEach_cons_pair]
    by_cases hfirst : pair = first
    · subst hfirst
      rw [replaceFrom_append (hpairs.old_ne_nil pair hpair), replaceEach_append_of_apart]
      intro other hother inner hinner hne
      exact hpairs.not_comparable_new hpair (List.mem_cons_of_mem pair hother) hinner hne
    · have hlater : pair ∈ pairs := (List.mem_cons.1 hpair).resolve_left hfirst
      rw [replaceFrom_append_of_apart, ih hpairs.tail hlater]
      intro inner hinner hne hcomparable
      exact hfirst (hpairs.eq_of_comparable hpair List.mem_cons_self hinner hne hcomparable).2

theorem replaceEach_cons (hpairs : Separate pairs) {c : Char} {rest : List Char}
    (hstart : ∀ pair ∈ pairs, ¬pair.1 <+: c :: rest) :
    replaceEach pairs (c :: rest) = c :: replaceEach pairs rest := by
  induction pairs generalizing rest with
  | nil => rfl
  | cons first pairs ih =>
    have hfirst : replaceFrom first.1 first.2 0 (c :: rest) = c :: replaceFrom first.1 first.2 0 rest :=
      replaceFrom_cons (hstart first List.mem_cons_self)
    rw [replaceEach_cons_pair, replaceEach_cons_pair, hfirst, ih hpairs.tail]
    intro pair hpair hbegin
    have hmem := List.mem_cons_of_mem first hpair
    rw [← hfirst] at hbegin
    exact hstart pair hmem (prefix_of_prefix_replaceFrom (hpairs.new_ne_nil first List.mem_cons_self)
      (hpairs.disjoint first List.mem_cons_self pair hmem) hbegin)

/-- Induction along a text: it is empty, it begins with an old text, or with a character at which no old text begins. -/
theorem old_induction {pairs : List (List Char × List Char)} (hold : ∀ pair ∈ pairs, pair.1 ≠ [])
    {motive : List Char → Prop} (nil : motive [])
    (old : ∀ pair ∈ pairs, ∀ rest, motive rest → motive (pair.1 ++ rest))
    (char : ∀ c rest, (∀ pair ∈ pairs, ¬pair.1 <+: c :: rest) → motive rest → motive (c :: rest))
    (text : List Char) : motive text := by
  induction hlength : text.length using Nat.strongRecOn generalizing text with
  | ind length ih =>
    subst hlength
    cases text with
    | nil => exact nil
    | cons c rest =>
      by_cases hstart : ∃ pair ∈ pairs, pair.1 <+: c :: rest
      · obtain ⟨pair, hpair, later, hlater⟩ := hstart
        have hpos := List.length_pos_iff.2 (hold pair hpair)
        rw [← hlater] at ih ⊢
        refine old pair hpair later (ih later.length ?_ later rfl)
        rw [List.length_append]
        omega
      · have hchar : ∀ pair ∈ pairs, ¬pair.1 <+: c :: rest := fun pair hpair hbegin => hstart ⟨pair, hpair, hbegin⟩
        exact char c rest hchar (ih rest.length (by simp) rest rfl)

/-! ### The order of the pairs -/

section Order

variable {others : List (List Char × List Char)}

theorem Separate.of_perm (hpairs : Separate pairs) (hperm : others.Perm pairs) : Separate others where
  old_ne_nil pair hpair := hpairs.old_ne_nil pair (hperm.mem_iff.1 hpair)
  new_ne_nil pair hpair := hpairs.new_ne_nil pair (hperm.mem_iff.1 hpair)
  disjoint pair hpair other hother :=
    hpairs.disjoint pair (hperm.mem_iff.1 hpair) other (hperm.mem_iff.1 hother)
  apart pair hpair other hother := hpairs.apart pair (hperm.mem_iff.1 hpair) other (hperm.mem_iff.1 hother)

/-- Which pair is replaced first makes no difference. -/
theorem replaceEach_perm (hpairs : Separate pairs) (hperm : others.Perm pairs) (text : List Char) :
    replaceEach others text = replaceEach pairs text := by
  have hothers := hpairs.of_perm hperm
  induction text using old_induction hpairs.old_ne_nil with
  | nil => rw [replaceEach_nil, replaceEach_nil]
  | old pair hpair rest ih =>
    rw [replaceEach_append hpairs hpair, replaceEach_append hothers (hperm.mem_iff.2 hpair), ih]
  | char c rest hstart ih =>
    have hothersStart : ∀ pair ∈ others, ¬pair.1 <+: c :: rest := fun pair hpair =>
      hstart pair (hperm.mem_iff.1 hpair)
    rw [replaceEach_cons hpairs hstart, replaceEach_cons hothers hothersStart, ih]

end Order

/-! ### What is left -/

theorem infix_of_infix_append {middle left rest : List Char} (hne : middle ≠ []) (hleft : ∀ c ∈ left, c ∉ middle)
    (hinside : middle <:+: left ++ rest) : middle <:+: rest := by
  induction left with
  | nil => exact hinside
  | cons c left ih =>
    rw [List.cons_append, List.infix_cons_iff] at hinside
    rcases hinside with hbegin | hinside
    · rcases List.prefix_cons_iff.1 hbegin with rfl | ⟨later, rfl, _⟩
      · exact absurd rfl hne
      · exact absurd List.mem_cons_self (hleft c List.mem_cons_self)
    · exact ih (fun d hd => hleft d (List.mem_cons_of_mem c hd)) hinside

theorem prefix_of_prefix_replaceEach {start text : List Char} (hnew : ∀ pair ∈ pairs, pair.2 ≠ [])
    (hstart : ∀ pair ∈ pairs, ∀ c ∈ pair.2, c ∉ start) (hbegin : start <+: replaceEach pairs text) :
    start <+: text := by
  induction pairs generalizing text with
  | nil => exact hbegin
  | cons first pairs ih =>
    have hlater := ih (fun pair hpair => hnew pair (List.mem_cons_of_mem first hpair))
      (fun pair hpair => hstart pair (List.mem_cons_of_mem first hpair)) hbegin
    exact prefix_of_prefix_replaceFrom (hnew first List.mem_cons_self) (hstart first List.mem_cons_self) hlater

/-- No old text is left, and none has come about. -/
theorem not_infix_replaceEach (hpairs : Separate pairs) (hpair : pair ∈ pairs) (text : List Char) :
    ¬pair.1 <:+: replaceEach pairs text := by
  have hne := hpairs.old_ne_nil pair hpair
  induction text using old_induction hpairs.old_ne_nil with
  | nil =>
    rw [replaceEach_nil, List.infix_nil]
    exact hne
  | old other hother rest ih =>
    rw [replaceEach_append hpairs hother]
    exact fun hinside => ih (infix_of_infix_append hne (hpairs.disjoint other hother pair hpair) hinside)
  | char c rest hstart ih =>
    have hcons := replaceEach_cons hpairs hstart
    rw [hcons, List.infix_cons_iff, not_or, ← hcons]
    refine ⟨fun hbegin => hstart pair hpair ?_, ih⟩
    exact prefix_of_prefix_replaceEach hpairs.new_ne_nil (fun other hother => hpairs.disjoint other hother pair hpair)
      hbegin

theorem replaceEach_of_not_infix (hpairs : Separate pairs) {text : List Char}
    (htext : ∀ pair ∈ pairs, ¬pair.1 <:+: text) : replaceEach pairs text = text := by
  induction text with
  | nil => exact replaceEach_nil pairs
  | cons c rest ih =>
    rw [replaceEach_cons hpairs fun pair hpair hbegin => htext pair hpair hbegin.isInfix,
      ih fun pair hpair hinside => htext pair hpair (List.infix_cons hinside)]

theorem mem_of_mem_replaceEach (hpairs : Separate pairs) {text : List Char} {c : Char}
    (hc : c ∈ replaceEach pairs text) : c ∈ text ∨ ∃ pair ∈ pairs, c ∈ pair.2 := by
  induction text using old_induction hpairs.old_ne_nil with
  | nil => simp at hc
  | old other hother rest ih =>
    rw [replaceEach_append hpairs hother, List.mem_append] at hc
    rcases hc with hnew | hrest
    · exact .inr ⟨other, hother, hnew⟩
    · exact (ih hrest).imp_left (List.mem_append_right other.1)
  | char d rest hstart ih =>
    rw [replaceEach_cons hpairs hstart, List.mem_cons] at hc
    rcases hc with rfl | hrest
    · exact .inl List.mem_cons_self
    · exact (ih hrest).imp_left (List.mem_cons_of_mem d)

theorem head?_replaceEach (hpairs : Separate pairs) {text : List Char} {c : Char}
    (hc : (replaceEach pairs text).head? = some c) : text.head? = some c ∨ ∃ pair ∈ pairs, c ∈ pair.2 := by
  induction text using old_induction hpairs.old_ne_nil with
  | nil => simp at hc
  | old other hother rest _ =>
    rw [replaceEach_append hpairs hother, List.head?_append_of_ne_nil _ (hpairs.new_ne_nil other hother)] at hc
    exact .inr ⟨other, hother, List.mem_of_mem_head? hc⟩
  | char d rest hstart _ =>
    rw [replaceEach_cons hpairs hstart] at hc
    exact .inl hc

theorem replaceEach_ne_nil (hpairs : Separate pairs) {text : List Char} (hne : text ≠ []) :
    replaceEach pairs text ≠ [] := by
  induction text using old_induction hpairs.old_ne_nil with
  | nil => exact absurd rfl hne
  | old other hother rest _ =>
    rw [replaceEach_append hpairs hother]
    exact List.append_ne_nil_of_left_ne_nil (hpairs.new_ne_nil other hother) _
  | char d rest hstart _ =>
    rw [replaceEach_cons hpairs hstart]
    exact List.cons_ne_nil d _

theorem length_replaceEach_le (hpairs : Separate pairs) (hlength : ∀ pair ∈ pairs, pair.2.length ≤ pair.1.length)
    (text : List Char) : (replaceEach pairs text).length ≤ text.length := by
  induction text using old_induction hpairs.old_ne_nil with
  | nil => simp
  | old other hother rest ih =>
    have := hlength other hother
    rw [replaceEach_append hpairs hother, List.length_append, List.length_append]
    omega
  | char d rest hstart ih =>
    rw [replaceEach_cons hpairs hstart, List.length_cons, List.length_cons]
    omega

/-! ### There and back -/

/-- The pairs that undo what `pairs` do. -/
def swapped (pairs : List (List Char × List Char)) : List (List Char × List Char) :=
  pairs.map Prod.swap

theorem swap_mem_swapped (hpair : pair ∈ pairs) : pair.swap ∈ swapped pairs :=
  List.mem_map_of_mem hpair

theorem forall_mem_swapped {P : List Char × List Char → Prop} :
    (∀ pair ∈ swapped pairs, P pair) ↔ ∀ pair ∈ pairs, P pair.swap :=
  List.forall_mem_map

/-- A proper end of a new text begins the result only where it was before: no new text begins inside another one. -/
theorem prefix_of_suffix_of_prefix_replaceEach (hpairs : Separate pairs) (hswapped : Separate (swapped pairs))
    (hpair : pair ∈ pairs) {inner text : List Char} (hinner : inner <:+ pair.2) (hproper : inner ≠ pair.2)
    (hbegin : inner <+: replaceEach pairs text) : inner <+: text := by
  induction inner generalizing text with
  | nil => exact List.nil_prefix
  | cons d inner ih =>
    induction text using old_induction hpairs.old_ne_nil with
    | nil => simp at hbegin
    | old other hother rest _ =>
      rw [replaceEach_append hpairs hother] at hbegin
      have hcomparable : Comparable (d :: inner) other.swap.1 := (comparable_of_prefix_append hbegin).symm
      exact absurd (hswapped.eq_of_comparable (swap_mem_swapped hpair) (swap_mem_swapped hother) hinner
        (List.cons_ne_nil d inner) hcomparable).1 hproper
    | char c rest hstart _ =>
      rw [replaceEach_cons hpairs hstart, List.cons_prefix_cons] at hbegin
      obtain ⟨rfl, hrest⟩ := hbegin
      have hsuffix : inner <:+ pair.2 := (List.suffix_cons d inner).trans hinner
      have hne : inner ≠ pair.2 := by
        rintro rfl
        exact absurd hinner.length_le (Nat.not_succ_le_self pair.2.length)
      exact List.cons_prefix_cons.2 ⟨rfl, ih hsuffix hne hrest⟩

/-- What has been replaced makes no difference to the way back. -/
theorem replaceEach_swapped_replaceEach (hpairs : Separate pairs) (hswapped : Separate (swapped pairs))
    (text : List Char) : replaceEach (swapped pairs) (replaceEach pairs text) = replaceEach (swapped pairs) text := by
  have hold : ∀ pair ∈ pairs ++ swapped pairs, pair.1 ≠ [] := by
    intro pair hpair
    exact (List.mem_append.1 hpair).elim (hpairs.old_ne_nil pair) (hswapped.old_ne_nil pair)
  induction text using old_induction hold with
  | nil => rw [replaceEach_nil]
  | old other hother rest ih =>
    rcases List.mem_append.1 hother with hother | hother
    · have hback := replaceEach_append hswapped (swap_mem_swapped hother) (replaceEach pairs rest)
      have hstay := replaceEach_append_new hswapped (swap_mem_swapped hother) rest
      rw [Prod.fst_swap, Prod.snd_swap] at hback
      rw [Prod.snd_swap] at hstay
      rw [replaceEach_append hpairs hother, hback, ih, hstay]
    · obtain ⟨pair, hpair, rfl⟩ := List.mem_map.1 hother
      have hstay := replaceEach_append_new hpairs hpair rest
      have hback := replaceEach_append hswapped hother
      rw [Prod.fst_swap] at hback ⊢
      rw [hstay, hback, hback, ih]
  | char c rest hstart ih =>
    have hpairsStart : ∀ pair ∈ pairs, ¬pair.1 <+: c :: rest := fun pair hpair =>
      hstart pair (List.mem_append_left _ hpair)
    have hswappedStart : ∀ pair ∈ swapped pairs, ¬pair.1 <+: c :: rest := fun pair hpair =>
      hstart pair (List.mem_append_right _ hpair)
    rw [replaceEach_cons hpairs hpairsStart, replaceEach_cons hswapped hswappedStart, replaceEach_cons hswapped, ih]
    rw [forall_mem_swapped]
    intro pair hpair hbegin
    -- A new text that begins here begins with `c` and goes on in what has been replaced, where only its end can be.
    obtain ⟨d, inner, hinner⟩ := List.exists_cons_of_ne_nil (hpairs.new_ne_nil pair hpair)
    have hproper : inner ≠ pair.2 := fun heq => by simp [heq] at hinner
    have hsuffix : inner <:+ pair.2 := hinner ▸ List.suffix_cons d inner
    rw [Prod.fst_swap, hinner, List.cons_prefix_cons] at hbegin
    have hbefore := prefix_of_suffix_of_prefix_replaceEach hpairs hswapped hpair hsuffix hproper hbegin.2
    refine hswappedStart pair.swap (swap_mem_swapped hpair) ?_
    rw [Prod.fst_swap, hinner]
    exact List.cons_prefix_cons.2 ⟨hbegin.1, hbefore⟩

end Pluck.Escape
