import Pluck.Pattern.Search

/-!
# The programs of patterns

What the program of a pattern has to do with those of its parts. The pieces of a sequence come one after the other in it
(`code_concat`), whichever of them have been put together. A program is closed if its entry and all labels in its nodes
are those of its own nodes; patterns have closed programs (`isClosed_program`), although the node of a loop is added
only after the round that goes back to it. No way through a closed program leads to a node that is added later, and so
an anchor before it makes no difference to its matches at the start of a text: `matchAt?_concat_start`.
-/

namespace Pluck

def Node.targets : Node → List Label
  | accept => []
  | one _ next | start next | stop next => [next]
  | split preferred other => [preferred, other]

namespace Program

/-- All labels in the program are below a bound. -/
structure Within (bound : Nat) (program : Program) : Prop where
  entry : program.entry < bound
  targets : ∀ node ∈ program.nodes, ∀ target ∈ node.targets, target < bound

def IsClosed (program : Program) : Prop :=
  program.Within program.nodes.size

variable {program after : Program} {bound : Nat} {node : Node}

/-! ### Adding nodes -/

theorem Within.push (hprogram : program.Within bound) (hsize : program.nodes.size < bound)
    (hnode : ∀ target ∈ node.targets, target < bound) : (program.push node).Within bound where
  entry := hsize
  targets := by
    intro other hother
    rcases Array.mem_push.1 hother with hmem | rfl
    · exact hprogram.targets other hmem
    · exact hnode

theorem Within.enteredAt (hprogram : program.Within bound) {label : Label} (hlabel : label < bound) :
    (program.enteredAt label).Within bound :=
  ⟨hlabel, hprogram.targets⟩

theorem Within.choose (hprogram : program.Within bound) (hsize : program.nodes.size < bound) {again done : Label}
    (hagain : again < bound) (hdone : done < bound) (greedy : Bool) :
    (program.choose greedy again done).Within bound := by
  refine hprogram.push hsize ?_
  cases greedy <;> simp [Node.targets, hagain, hdone]

end Program

namespace Pattern

open Program

variable {after : Program} {bound : Nat}

theorem within_repeat {step : Program → Program} {count : Nat}
    (hstep : ∀ program, program.Within bound → program.nodes.size + count ≤ bound → (step program).Within bound)
    (hsize : ∀ program, (step program).nodes.size = program.nodes.size + count) {times : Nat}
    (hafter : after.Within bound) (hbound : after.nodes.size + times * count ≤ bound) :
    (Nat.repeat step times after).Within bound := by
  induction times with
  | zero => exact hafter
  | succ times ih =>
    rw [Nat.succ_mul] at hbound
    refine hstep _ (ih (by omega)) ?_
    rw [size_repeat hsize]
    omega

/-- The round goes back to the node that is added after it. -/
theorem within_loop {round : Program → Program} {size : Nat}
    (hround : ∀ program, program.Within bound → program.nodes.size + size ≤ bound → (round program).Within bound)
    (hsize : ∀ program, (round program).nodes.size = program.nodes.size + size) (greedy : Bool)
    (hafter : after.Within bound) (hbound : after.nodes.size + size < bound) :
    (loop round size greedy after).1.Within bound ∧ (loop round size greedy after).2 < bound := by
  have hinner := hround (after.enteredAt (after.nodes.size + size)) (hafter.enteredAt hbound) (Nat.le_of_lt hbound)
  refine ⟨hinner.choose ?_ hinner.entry hafter.entry greedy, hinner.entry⟩
  rw [hsize]
  exact hbound

theorem within_literal (text : List Char) (hafter : after.Within bound)
    (hbound : after.nodes.size + text.length ≤ bound) : ((literal text).code after).Within bound := by
  induction text with
  | nil => exact hafter
  | cons c rest ih =>
    rw [List.length_cons] at hbound
    have hrest : ((literal rest).code after).Within bound := ih (by omega)
    have hsize := size_literal rest after
    change (((literal rest).code after).push (.one (.singleton c) ((literal rest).code after).entry)).Within bound
    exact hrest.push (by omega) (by simpa [Node.targets] using hrest.entry)

theorem within_code (pattern : Pattern) (hafter : after.Within bound)
    (hbound : after.nodes.size + pattern.size ≤ bound) : (pattern.code after).Within bound := by
  fun_induction size pattern generalizing after with
  | case1 => exact hafter
  | case2 text => exact within_literal text hafter hbound
  | case3 | case4 | case5 => exact hafter.push hbound (by simpa [Node.targets] using hafter.entry)
  | case6 _ body ih => exact ih hafter hbound
  | case7 body least most greedy ih =>
    have hinner : ∀ program : Program, program.Within bound → program.nodes.size + body.size ≤ bound →
        (body.code program).Within bound := fun _ => ih
    have hsize (program : Program) :
        ((body.code program).choose greedy (body.code program).entry after.entry).nodes.size
          = program.nodes.size + (body.size + 1) := by
      simp [choose, push, size_code, Nat.add_assoc]
    have hoption (program : Program) (hprogram : program.Within bound)
        (hroom : program.nodes.size + (body.size + 1) ≤ bound) :
        ((body.code program).choose greedy (body.code program).entry after.entry).Within bound := by
      have hbody := ih hprogram (by omega)
      refine hbody.choose ?_ hbody.entry hafter.entry greedy
      rw [size_code]
      omega
    refine within_repeat hinner (size_code body) (within_repeat hoption hsize hafter (by omega)) ?_
    rw [atMost, size_repeat hsize]
    omega
  | case8 body greedy hempty ih =>
    obtain ⟨hloop, hentry⟩ := within_loop (fun _ => ih) (size_code body) greedy hafter (by omega)
    rw [code, anyNumber]
    simp only [hempty, if_true]
    refine hloop.choose ?_ hentry hafter.entry greedy
    rw [size_loop (size_code body)]
    omega
  | case9 body greedy hnonempty ih =>
    rw [code, anyNumber]
    simp only [hnonempty]
    exact (within_loop (fun _ => ih) (size_code body) greedy hafter (by omega)).1
  | case10 body least greedy hleast ih =>
    obtain _ | least := least
    · exact absurd rfl hleast
    · rw [Nat.succ_mul] at hbound
      obtain ⟨hloop, hentry⟩ := within_loop (fun _ => ih) (size_code body) greedy hafter (by omega)
      rw [code, atLeastOnce]
      refine within_repeat (fun _ => ih) (size_code body) (hloop.enteredAt hentry) ?_
      simp only [enteredAt, size_loop (size_code body)]
      omega
  | case11 first rest ihFirst ihRest =>
    refine ihFirst (ihRest hafter (by omega)) ?_
    rw [size_code]
    omega
  | case12 preferred other ihPreferred ihOther =>
    have hother := ihOther hafter (by omega)
    have hpreferred := ihPreferred (hother.enteredAt hafter.entry) (by
      simp only [enteredAt, size_code]
      omega)
    refine hpreferred.push ?_ ?_
    · simp only [size_code, enteredAt]
      omega
    · simp [Node.targets, hpreferred.entry, hother.entry]

theorem isClosed_program (pattern : Pattern) : pattern.program.IsClosed := by
  have haccepting : accepting.Within pattern.program.nodes.size := by
    refine ⟨?_, ?_⟩
    · simp only [program, size_code, accepting]
      exact Nat.lt_of_lt_of_le Nat.zero_lt_one (Nat.le_add_right _ _)
    · simp [accepting, Node.targets]
  exact within_code pattern haccepting (Nat.le_of_eq (size_code pattern .accepting).symm)

end Pattern

namespace Program

/-! ### A node that no way leads to -/

section Push

variable {program : Program} {node : Node} {place : Place} {label : Label}

theorem getElem?_nodes_push (hlabel : label < program.nodes.size) :
    (program.push node).nodes[label]? = program.nodes[label]? := by
  rw [push, Array.getElem?_push_lt hlabel, Array.getElem?_eq_getElem hlabel]

theorem onward_push (hlabel : label < program.nodes.size) :
    (program.push node).onward place label = program.onward place label := by
  rw [onward, onward, getElem?_nodes_push hlabel]

theorem after?_push (hlabel : label < program.nodes.size) (c : Char) :
    (program.push node).after? c label = program.after? c label := by
  rw [after?, after?, getElem?_nodes_push hlabel]

theorem accepts_push (hlabel : label < program.nodes.size) :
    (program.push node).accepts label = program.accepts label := by
  rw [accepts, accepts, getElem?_nodes_push hlabel]

theorem IsClosed.lt_of_mem_onward (hprogram : program.IsClosed) {target : Label}
    (htarget : target ∈ program.onward place label) : target < program.nodes.size := by
  rw [onward] at htarget
  split at htarget
  · rename_i found hfound
    have hmem := Array.mem_of_getElem? hfound
    refine hprogram.targets found hmem target ?_
    cases found <;> simp_all [Node.onward, Node.targets]
  · cases htarget

theorem IsClosed.lt_of_mem_filterMap_after? (hprogram : program.IsClosed) (c : Char) (labels : List Label) :
    ∀ target ∈ labels.filterMap (program.after? c), target < program.nodes.size := by
  intro target htarget
  obtain ⟨label, _, hlabel⟩ := List.mem_filterMap.1 htarget
  obtain ⟨found, hfound, hafter⟩ := Option.bind_eq_some_iff.1 hlabel
  refine hprogram.targets found (Array.mem_of_getElem? hfound) target ?_
  cases found <;> simp_all [Node.after?, Node.targets]

theorem lt_of_mem_reach {unseen : Array Bool} {entered : List Label}
    (hlabel : label ∈ program.reach place unseen entered) : label < unseen.size := by
  fun_induction reach program place unseen entered with
  | case1 => cases hlabel
  | case2 unseen entry waiting hunseen ih =>
    rcases List.mem_cons.1 hlabel with rfl | hlater
    · exact (Array.getElem?_eq_some_iff.1 hunseen).1
    · simpa using ih hlater
  | case3 unseen entry waiting hseen ih => exact ih hlabel

theorem reach_push (hprogram : program.IsClosed) {unseen : Array Bool} (hsize : unseen.size = program.nodes.size)
    {entered : List Label} (hentered : ∀ label ∈ entered, label < program.nodes.size) (mark : Bool) :
    (program.push node).reach place (unseen.push mark) entered = program.reach place unseen entered := by
  fun_induction reach program place unseen entered with
  | case1 => rw [reach]
  | case2 unseen label waiting hunseen ih =>
    obtain ⟨hlabel, hwaiting⟩ := List.forall_mem_cons.1 hentered
    have hlater : ∀ target ∈ program.onward place label ++ waiting, target < program.nodes.size := by
      intro target htarget
      rcases List.mem_append.1 htarget with honward | hmem
      · exact hprogram.lt_of_mem_onward honward
      · exact hwaiting target hmem
    have hset : (unseen.push mark).setIfInBounds label false = (unseen.setIfInBounds label false).push mark := by
      grind
    have hmarked : (unseen.push mark)[label]? = some true := by
      rw [Array.getElem?_push_lt (hsize ▸ hlabel), ← Array.getElem?_eq_getElem, hunseen]
    rw [reach, dif_pos hmarked, hset, onward_push hlabel, ih (by simpa using hsize) hlater]
  | case3 unseen label waiting hseen ih =>
    obtain ⟨hlabel, hwaiting⟩ := List.forall_mem_cons.1 hentered
    have hunmarked : (unseen.push mark)[label]? ≠ some true := by
      rwa [Array.getElem?_push_lt (hsize ▸ hlabel), ← Array.getElem?_eq_getElem]
    rw [reach, dif_neg hunmarked, ih hsize hwaiting]

theorem any_accepts_push {reached : List Label} (hreached : ∀ label ∈ reached, label < program.nodes.size) :
    reached.any (program.push node).accepts = reached.any program.accepts := by
  induction reached with
  | nil => rfl
  | cons label reached ih =>
    obtain ⟨hlabel, hlater⟩ := List.forall_mem_cons.1 hreached
    rw [List.any_cons, List.any_cons, accepts_push hlabel, ih hlater]

/-- The labels at which the ways go on with a character that are not less preferred than one that is accepted. -/
theorem entered_push {reached : List Label} (hreached : ∀ label ∈ reached, label < program.nodes.size) (c : Char) :
    (reached.takeWhile (!(program.push node).accepts ·)).filterMap ((program.push node).after? c) =
      (reached.takeWhile (!program.accepts ·)).filterMap (program.after? c) := by
  induction reached with
  | nil => rfl
  | cons label reached ih =>
    obtain ⟨hlabel, hlater⟩ := List.forall_mem_cons.1 hreached
    rw [List.takeWhile_cons, List.takeWhile_cons, accepts_push hlabel]
    split
    · rw [List.filterMap_cons, List.filterMap_cons, after?_push hlabel, ih hlater]
    · rfl

theorem reach_all_push (hprogram : program.IsClosed) {entered : List Label}
    (hentered : ∀ label ∈ entered, label < program.nodes.size) (place : Place) :
    (program.push node).reach place (.replicate (program.push node).nodes.size true) entered =
      program.reach place (.replicate program.nodes.size true) entered := by
  rw [show (program.push node).nodes.size = program.nodes.size + 1 from Array.size_push _, Array.replicate_succ]
  exact reach_push hprogram Array.size_replicate hentered true

theorem lt_of_mem_reach_all {entered : List Label} :
    ∀ label ∈ program.reach place (.replicate program.nodes.size true) entered, label < program.nodes.size := by
  intro label hlabel
  simpa using lt_of_mem_reach hlabel

/-- A node that is added to a closed program makes no difference to the ways that do not enter there. -/
theorem follow_push (hprogram : program.IsClosed) {entered : List Label}
    (hentered : ∀ label ∈ entered, label < program.nodes.size) (offset : Nat) (best : Option Nat) (text : List Char) :
    (program.push node).follow offset best entered text = program.follow offset best entered text := by
  induction text generalizing offset best entered with
  | nil => simp only [follow, reach_all_push hprogram hentered, any_accepts_push lt_of_mem_reach_all]
  | cons c rest ih =>
    simp only [follow, reach_all_push hprogram hentered, any_accepts_push lt_of_mem_reach_all,
      entered_push lt_of_mem_reach_all]
    split
    · rfl
    · exact ih (hprogram.lt_of_mem_filterMap_after? c _) _ _

/-- At the start of the text the way goes on from the anchor to the program behind it. -/
theorem reach_anchored (hprogram : program.IsClosed) (hstart : place.atStart = true) :
    (program.push (.start program.entry)).reach place
        (.replicate (program.push (.start program.entry)).nodes.size true) [program.nodes.size] =
      program.nodes.size :: program.reach place (.replicate program.nodes.size true) [program.entry] := by
  have honward : (program.push (.start program.entry)).onward place program.nodes.size = [program.entry] := by
    simp [onward, push, Node.onward, hstart]
  have hset : (Array.replicate (program.nodes.size + 1) true).setIfInBounds program.nodes.size false =
      (Array.replicate program.nodes.size true).push false := by
    rw [Array.replicate_succ]
    grind
  have hentry : ∀ label ∈ [program.entry], label < program.nodes.size := List.forall_mem_singleton.2 hprogram.entry
  rw [show (program.push (.start program.entry)).nodes.size = program.nodes.size + 1 from Array.size_push _, reach,
    dif_pos (by simp), honward, hset, List.append_nil, reach_push hprogram Array.size_replicate hentry]

/-- An anchor before a closed program lets it match the same at the start of a text. -/
theorem matchAt?_anchored (hprogram : program.IsClosed) (text : List Char) :
    (program.push (.start program.entry)).matchAt? 0 text = program.matchAt? 0 text := by
  have hnode : (program.push (.start program.entry)).nodes[program.nodes.size]? = some (.start program.entry) := by
    simp [push]
  have haccepts : (program.push (.start program.entry)).accepts program.nodes.size = false := by
    rw [accepts, hnode]
    rfl
  have hafter (c : Char) : (program.push (.start program.entry)).after? c program.nodes.size = none := by
    rw [after?, hnode]
    rfl
  rw [matchAt?, matchAt?, show (program.push (.start program.entry)).entry = program.nodes.size from rfl]
  cases text with
  | nil => simp only [follow, reach_anchored hprogram, List.any_cons, haccepts, Bool.false_or,
      any_accepts_push lt_of_mem_reach_all, decide_true]
  | cons c rest =>
    simp only [follow, reach_anchored hprogram, List.any_cons, haccepts, Bool.false_or,
      any_accepts_push lt_of_mem_reach_all, decide_true, List.takeWhile_cons, Bool.not_false, if_true,
      List.filterMap_cons, hafter, entered_push lt_of_mem_reach_all]
    have hentered := hprogram.lt_of_mem_filterMap_after? c ((program.reach ⟨true, (c :: rest).isEmpty⟩
      (.replicate program.nodes.size true) [program.entry]).takeWhile (!program.accepts ·))
    generalize List.filterMap (program.after? c) _ = entered at hentered ⊢
    cases entered with
    | nil => rfl
    | cons => exact follow_push hprogram hentered _ _ _

end Push

end Program

namespace Pattern

/-! ### Sequences -/

theorem code_before (piece rest : Pattern) (after : Program) :
    (before piece rest).code after = piece.code (rest.code after) := by
  fun_cases before piece rest with
  | case1 => rfl
  | case2 text more => simp only [code, List.foldr_append]
  | case3 text more rest => simp only [code, List.foldr_append]
  | case4 => rfl

theorem foldr_code_pieces (pattern : Pattern) (after : Program) :
    pattern.pieces.foldr code after = pattern.code after := by
  fun_induction pieces pattern generalizing after with
  | case1 => rfl
  | case2 first rest ihFirst ihRest => rw [List.foldr_append, ihRest, ihFirst, code]
  | case3 => rfl

theorem code_foldr_before (pieces : List Pattern) (after : Program) :
    (pieces.foldr before empty).code after = pieces.foldr code after := by
  induction pieces with
  | nil => rfl
  | cons piece rest ih => rw [List.foldr_cons, code_before, ih, List.foldr_cons]

theorem code_concat (patterns : List Pattern) (after : Program) :
    (concat patterns).code after = patterns.foldr code after := by
  rw [concat, code_foldr_before]
  induction patterns with
  | nil => rfl
  | cons pattern rest ih => rw [List.flatMap_cons, List.foldr_append, ih, foldr_code_pieces, List.foldr_cons]

/-- An anchor before a pattern lets it match the same at the start of a text. -/
theorem matchAt?_concat_start (pattern : Pattern) (text : List Char) :
    (concat [start, pattern]).program.matchAt? 0 text = pattern.program.matchAt? 0 text := by
  rw [program, code_concat]
  exact Program.matchAt?_anchored (isClosed_program pattern) text

end Pattern

end Pluck
