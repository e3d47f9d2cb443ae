import Mathlib
import Pluck.Proofs.Lexicon.Reading
import Pluck.Proofs.Pattern.Anchored
import Pluck.Proofs.Text.Runs
import Pluck.Query.Reader

/-!
# The tokens of a query

What the lexicon of queries finds in an arbitrary text. The text is taken piece by piece, where a piece goes on to the
next reserved character: `spans_piece` says that a piece gives the blanks at its start and one name, or nothing more if
it is all blank, and `spans_reserved` that the reserved character after it gives a token of its own. Without the blanks
these are the tokens of a query (`tokens_piece`, `tokens_reserved`). A query is never stuck, since each character begins
a token.
-/

namespace Pluck.Query

open Pattern

/-- The kind of the token that a character with a meaning of its own makes up. -/
def reservedKind? : Char → Option TokenKind
  | ',' => some .join
  | '.' => some .separator
  | '=' => some .assign
  | _ => none

def isReserved (c : Char) : Bool :=
  (reservedKind? c).isSome

theorem isReserved_iff (c : Char) : isReserved c = true ↔ c = ',' ∨ c = '.' ∨ c = '=' := by
  unfold isReserved reservedKind?
  split <;> simp_all

theorem isReserved_of_reservedKind? {c : Char} {kind : TokenKind} (hkind : reservedKind? c = some kind) :
    isReserved c := by
  rw [isReserved, hkind]
  rfl

theorem kind_isReserved_of_reservedKind? {c : Char} {kind : TokenKind} (hkind : reservedKind? c = some kind) :
    kind.isReserved := by
  unfold reservedKind? at hkind
  split at hkind <;> cases hkind <;> rfl

theorem not_isBlank_of_isReserved {c : Char} (hreserved : isReserved c) : Text.isBlank c = false := by
  rcases (isReserved_iff c).1 hreserved with rfl | rfl | rfl <;> decide

theorem contains_nameCharacters (c : Char) : nameCharacters.contains c = !isReserved c := by
  rw [nameCharacters, CharSet.contains_complement (CharSet.apart_ofRanges (by decide)),
    CharSet.contains_ofRanges (by decide)]
  have hsingle : ∀ d : Char, (d ≤ c ∧ c ≤ d) ↔ c = d := fun d =>
    ⟨fun h => Char.le_antisymm h.2 h.1, fun h => h ▸ ⟨Char.le_refl c, Char.le_refl c⟩⟩
  congr 1
  rw [Bool.eq_iff_iff, isReserved_iff]
  simp only [List.any_cons, List.any_nil, Bool.or_false, Bool.or_eq_true, Bool.and_eq_true, decide_eq_true_eq, hsingle]
  exact or_left_comm

/-! ### The rule that applies -/

/-- The rules of queries, as patterns are written. -/
theorem rules_lexicon :
    [Rule.ofPattern "^\\s+" .skip, Rule.ofPattern "^," .join, Rule.ofPattern "^\\." .separator,
      Rule.ofPattern "^=" .assign, Rule.ofPattern "^[^.,=]*" .name] = lexicon.rules.map .ok := by
  cbv

theorem rules_lexicon_anchored :
    lexicon.rules = [⟨anchoredRun .blank 1, .skip⟩, ⟨anchoredCharacter ',', .join⟩, ⟨anchoredCharacter '.', .separator⟩,
      ⟨anchoredCharacter '=', .assign⟩, ⟨anchoredRun nameCharacters 0, .name⟩] := rfl

theorem match?_cons (c : Char) (rest : List Char) :
    lexicon.match? (c :: rest) =
      if Text.isBlank c then some (.skip, ((c :: rest).takeWhile Text.isBlank).length)
      else
        match reservedKind? c with
        | some kind => some (kind, 1)
        | none => some (.name, ((c :: rest).takeWhile (!isReserved ·)).length) := by
  have hblank : CharSet.blank.contains = Text.isBlank := funext CharSet.contains_blank
  have hname : nameCharacters.contains = (!isReserved ·) := funext contains_nameCharacters
  rw [Lexicon.match?, rules_lexicon_anchored]
  simp only [List.findSome?_cons, List.findSome?_nil, length?_anchoredRun _ (Nat.le_refl 1),
    length?_anchoredRun _ (Nat.zero_le 1), length?_anchoredCharacter, hblank, hname]
  by_cases hc : Text.isBlank c
  · simp [hc]
  · have hreserved : isReserved c = (reservedKind? c).isSome := rfl
    cases hkind : reservedKind? c with
    | some kind =>
      rw [hkind] at hreserved
      rcases (isReserved_iff c).1 hreserved with rfl | rfl | rfl <;> cases hkind <;> simp [hc]
    | none =>
      have hnot : ¬(c = ',' ∨ c = '.' ∨ c = '=') := by
        rw [← isReserved_iff, hreserved, hkind]
        exact Bool.false_ne_true
      rw [not_or, not_or] at hnot
      rw [hkind] at hreserved
      simp [hc, hnot, hreserved]

/-! ### Pieces

A piece of a query goes on to the next reserved character, or to the end. -/

def IsPiece (piece : List Char) : Prop :=
  ∀ c ∈ piece, isReserved c = false

theorem IsPiece.not_mem {piece : List Char} (hpiece : IsPiece piece) {c : Char} (hreserved : isReserved c) :
    c ∉ piece := by
  intro hmem
  rw [hpiece c hmem] at hreserved
  cases hreserved

/-- A piece cannot go on with this text. -/
def EndsPiece (rest : List Char) : Prop :=
  ∀ c ∈ rest.head?, isReserved c

theorem endsPiece_nil : EndsPiece [] := by
  simp [EndsPiece]

theorem endsPiece_cons {c : Char} (hreserved : isReserved c) (rest : List Char) : EndsPiece (c :: rest) := by
  simpa [EndsPiece] using hreserved

/-- Induction on a text that is taken apart at the characters with a property. -/
theorem split_induction (p : Char → Bool) {motive : List Char → Prop}
    (last : ∀ part, (∀ c ∈ part, p c = false) → motive part)
    (more : ∀ part c rest, (∀ d ∈ part, p d = false) → p c → motive rest → motive (part ++ c :: rest))
    (text : List Char) : motive text := by
  induction hlength : text.length using Nat.strongRecOn generalizing text with
  | ind length ih =>
    cases hfind : text.find? p with
    | none => exact last text (by simpa using hfind)
    | some c =>
      obtain ⟨hc, part, rest, rfl, hpart⟩ := List.find?_eq_some_iff_append.1 hfind
      refine more part c rest (by simpa using hpart) hc (ih rest.length ?_ rest rfl)
      rw [← hlength, List.length_append, List.length_cons]
      omega

theorem piece_induction {motive : List Char → Prop} (last : ∀ piece, IsPiece piece → motive piece)
    (more : ∀ piece c rest, IsPiece piece → isReserved c → motive rest → motive (piece ++ c :: rest))
    (text : List Char) : motive text :=
  split_induction isReserved last more text

/-- Every text is one piece, or begins with a piece and the reserved character after it. -/
theorem exists_piece (text : List Char) :
    IsPiece text ∨ ∃ piece c rest, IsPiece piece ∧ isReserved c ∧ text = piece ++ c :: rest := by
  induction text using piece_induction with
  | last piece hpiece => exact .inl hpiece
  | more piece c rest hpiece hreserved _ => exact .inr ⟨piece, c, rest, hpiece, hreserved, rfl⟩

/-- The characters with a property are taken up to the first one without it. -/
theorem takeWhile_append_of_head? {p : Char → Bool} {taken rest : List Char} (htaken : ∀ c ∈ taken, p c)
    (hrest : ∀ c ∈ rest.head?, p c = false) : (taken ++ rest).takeWhile p = taken := by
  rw [Text.takeWhile_append_of_head?_eq hrest, List.takeWhile_eq_self_iff.2 htaken]

theorem match?_of_blanks {c : Char} {blanks rest : List Char} (hblanks : ∀ d ∈ c :: blanks, Text.isBlank d)
    (hrest : ∀ d ∈ rest.head?, Text.isBlank d = false) :
    lexicon.match? (c :: blanks ++ rest) = some (.skip, (c :: blanks).length) := by
  have htaken := takeWhile_append_of_head? hblanks hrest
  rw [List.cons_append] at htaken ⊢
  rw [match?_cons, if_pos (hblanks c List.mem_cons_self), htaken]

theorem match?_of_reserved {c : Char} {kind : TokenKind} (hkind : reservedKind? c = some kind) (rest : List Char) :
    lexicon.match? (c :: rest) = some (kind, 1) := by
  have hblank : Text.isBlank c = false := not_isBlank_of_isReserved (isReserved_of_reservedKind? hkind)
  rw [match?_cons, hblank, hkind]
  rfl

theorem match?_of_name {c : Char} {piece rest : List Char} (hblank : Text.isBlank c = false)
    (hpiece : IsPiece (c :: piece)) (hrest : EndsPiece rest) :
    lexicon.match? (c :: piece ++ rest) = some (.name, (c :: piece).length) := by
  have hkind : reservedKind? c = none := by simpa [isReserved] using hpiece c List.mem_cons_self
  have htaken : (c :: piece ++ rest).takeWhile (!isReserved ·) = c :: piece :=
    takeWhile_append_of_head? (fun d hd => by simp [hpiece d hd]) (fun d hd => by simp [hrest d hd])
  rw [List.cons_append] at htaken ⊢
  rw [match?_cons, hblank, hkind, htaken]
  rfl

/-! ### The tokens of a text -/

def byteLength (text : List Char) : Nat :=
  (String.ofList text).utf8ByteSize

@[simp] theorem byteLength_append (left right : List Char) :
    byteLength (left ++ right) = byteLength left + byteLength right := by
  simp [byteLength]

theorem byteLength_of_isReserved {c : Char} (hreserved : isReserved c) : byteLength [c] = 1 := by
  rcases (isReserved_iff c).1 hreserved with rfl | rfl | rfl <;> rfl

theorem byteLength_cons_of_isReserved {c : Char} (hreserved : isReserved c) (rest : List Char) :
    byteLength (c :: rest) = 1 + byteLength rest := by
  rw [← List.singleton_append, byteLength_append, byteLength_of_isReserved hreserved]

/-- All tokens of a query from some place on, those of blanks included. -/
def spans (source : Source) : List Token :=
  (lexicon.read source).found

/-- The tokens of a query from some place on. -/
def tokens (source : Source) : List Token :=
  lexicon.kept (lexicon.read source)

theorem tokens_eq (source : Source) : tokens source = (spans source).filter (·.kind ≠ .skip) :=
  rfl

theorem spans_nil (offset : Nat) : spans ⟨offset, []⟩ = [] := by
  rw [spans, Lexicon.read_of_nil rfl]

theorem spans_of_match? {kind : TokenKind} {taken rest : List Char} (offset : Nat) (hne : taken ++ rest ≠ [])
    (hmatch : lexicon.match? (taken ++ rest) = some (kind, taken.length)) :
    spans ⟨offset, taken ++ rest⟩ =
      ⟨kind, String.ofList taken, offset⟩ :: spans ⟨offset + byteLength taken, rest⟩ := by
  rw [spans, Lexicon.read_of_token? hne (Lexicon.token?_of_match? offset hmatch)]
  rfl

theorem spans_reserved {c : Char} {kind : TokenKind} (offset : Nat) (hkind : reservedKind? c = some kind)
    (rest : List Char) :
    spans ⟨offset, c :: rest⟩ = ⟨kind, String.ofList [c], offset⟩ :: spans ⟨offset + 1, rest⟩ := by
  have hmatch : lexicon.match? ([c] ++ rest) = some (kind, [c].length) := match?_of_reserved hkind rest
  have hspans := spans_of_match? offset (by simp) hmatch
  rwa [byteLength_of_isReserved (isReserved_of_reservedKind? hkind)] at hspans

theorem tokens_reserved {c : Char} {kind : TokenKind} (offset : Nat) (hkind : reservedKind? c = some kind)
    (rest : List Char) :
    tokens ⟨offset, c :: rest⟩ = ⟨kind, String.ofList [c], offset⟩ :: tokens ⟨offset + 1, rest⟩ := by
  have hskip : kind ≠ .skip := by
    rintro rfl
    cases kind_isReserved_of_reservedKind? hkind
  rw [tokens_eq, spans_reserved offset hkind, List.filter_cons_of_pos (by simpa using hskip), tokens_eq]

/-- The token of the blanks before the name of a piece, if there are any. -/
def blankTokens (offset : Nat) (piece : List Char) : List Token :=
  if piece.takeWhile Text.isBlank = [] then []
  else [⟨.skip, String.ofList (piece.takeWhile Text.isBlank), offset⟩]

/-- What a piece gives: its name without the blanks before it, if there is one. -/
def nameTokens (offset : Nat) (piece : List Char) : List Token :=
  if piece.dropWhile Text.isBlank = [] then []
  else
    [⟨.name, String.ofList (piece.dropWhile Text.isBlank), offset + byteLength (piece.takeWhile Text.isBlank)⟩]

theorem spans_blanks {blanks rest : List Char} (offset : Nat) (hblanks : ∀ c ∈ blanks, Text.isBlank c)
    (hrest : ∀ c ∈ rest.head?, Text.isBlank c = false) :
    spans ⟨offset, blanks ++ rest⟩ =
      (if blanks = [] then [] else [⟨.skip, String.ofList blanks, offset⟩]) ++
        spans ⟨offset + byteLength blanks, rest⟩ := by
  cases blanks with
  | nil => rfl
  | cons c blanks =>
    rw [spans_of_match? offset (by simp) (match?_of_blanks hblanks hrest), if_neg (List.cons_ne_nil c blanks)]
    rfl

theorem spans_piece {piece rest : List Char} (offset : Nat) (hpiece : IsPiece piece) (hrest : EndsPiece rest) :
    spans ⟨offset, piece ++ rest⟩ =
      blankTokens offset piece ++ nameTokens offset piece ++ spans ⟨offset + byteLength piece, rest⟩ := by
  have hsplit : piece.takeWhile Text.isBlank ++ piece.dropWhile Text.isBlank = piece := List.takeWhile_append_dropWhile
  have hblanks : ∀ c ∈ piece.takeWhile Text.isBlank, Text.isBlank c := by
    intro c hc
    exact List.mem_takeWhile_imp hc
  rw [blankTokens, nameTokens]
  generalize piece.takeWhile Text.isBlank = blanks at hsplit hblanks ⊢
  cases hname : piece.dropWhile Text.isBlank with
  | nil =>
    rw [hname, List.append_nil] at hsplit
    subst hsplit
    rw [if_pos rfl, List.append_nil]
    exact spans_blanks offset hblanks fun c hc => not_isBlank_of_isReserved (hrest c hc)
  | cons c name =>
    have hc : Text.isBlank c = false := Text.head?_dropWhile_eq_false _ piece c (congrArg List.head? hname)
    rw [hname] at hsplit
    subst hsplit
    have hmatch := match?_of_name hc (fun d hd => hpiece d (List.mem_append_right blanks hd)) hrest
    rw [if_neg (List.cons_ne_nil c name), List.append_assoc, spans_blanks offset hblanks (by simp [hc]),
      spans_of_match? _ (by simp) hmatch, byteLength_append, Nat.add_assoc, List.append_assoc]
    rfl

/-- Of a piece only its name is kept. -/
theorem filter_spans_piece (offset : Nat) (piece : List Char) :
    (blankTokens offset piece ++ nameTokens offset piece).filter (·.kind ≠ .skip) = nameTokens offset piece := by
  rw [blankTokens, nameTokens]
  split <;> split <;> rfl

/-- The last piece of a text. -/
theorem spans_last {piece : List Char} (offset : Nat) (hpiece : IsPiece piece) :
    spans ⟨offset, piece⟩ = blankTokens offset piece ++ nameTokens offset piece := by
  have hspans := spans_piece offset hpiece endsPiece_nil
  rwa [List.append_nil, spans_nil, List.append_nil] at hspans

theorem tokens_piece {piece rest : List Char} (offset : Nat) (hpiece : IsPiece piece) (hrest : EndsPiece rest) :
    tokens ⟨offset, piece ++ rest⟩ = nameTokens offset piece ++ tokens ⟨offset + byteLength piece, rest⟩ := by
  rw [tokens_eq, spans_piece offset hpiece hrest, List.filter_append, filter_spans_piece, tokens_eq]

theorem tokens_last {piece : List Char} (offset : Nat) (hpiece : IsPiece piece) :
    tokens ⟨offset, piece⟩ = nameTokens offset piece := by
  rw [tokens_eq, spans_last offset hpiece, filter_spans_piece]

/-- A query is never stuck. -/
theorem stuck_read (source : Source) : (lexicon.read source).stuck = none := by
  refine Lexicon.stuck_read_of_match? ?_ source
  rintro (_ | ⟨c, rest⟩) hne
  · exact absurd rfl hne
  · rw [match?_cons]
    split
    · rfl
    · split <;> rfl

end Pluck.Query
