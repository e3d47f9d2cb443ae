import Pluck.Proofs.Query.Tokens

/-!
# The pieces of a text

A text is cut at each of its reserved characters. `pieces` lists the parts with their places and with the characters at
which they end. What searches of the lexicon of queries return can be read off it: for each piece its name, which is the
piece without the blanks at its start, and the token of the character after it. `stream_eq_pieces` says so for every
text, and what follows for the tokens one by one. It rests on `spans_eq_pieces`, which counts the blanks among the tokens.
-/

namespace Pluck.Query

/-! ### Cutting a text into pieces -/

structure Piece where
  /-- The place of the first character, in bytes. -/
  position : Nat
  characters : List Char
  /-- The reserved character after the piece, if the text goes on. -/
  ending : Option Char

/-- The pieces of a text with its reserved characters between them, from some place on. -/
def piecesFrom (position : Nat) : List (List Char) → List Char → List Piece
  | [], _ => []
  | part :: parts, endings =>
    ⟨position, part, endings.head?⟩ ::
      piecesFrom (position + byteLength (part ++ endings.head?.toList)) parts endings.tail

/-- The pieces of a text that begins at some place. -/
def pieces (position : Nat) (text : List Char) : List Piece :=
  piecesFrom position (text.splitOnP isReserved) (text.filter isReserved)

def reservedToken? (position : Nat) (c : Char) : Option Token :=
  (reservedKind? c).map fun kind => ⟨kind, String.ofList [c], position⟩

namespace Piece

/-- The name of the piece, if it has one, and the token of the character after it. -/
def tokens (piece : Piece) : List Token :=
  nameTokens piece.position piece.characters ++
    (piece.ending.bind (reservedToken? (piece.position + byteLength piece.characters))).toList

def spans (piece : Piece) : List Token :=
  blankTokens piece.position piece.characters ++ piece.tokens

end Piece

theorem pieces_of_isPiece (position : Nat) {piece : List Char} (hpiece : IsPiece piece) :
    pieces position piece = [⟨position, piece, none⟩] := by
  have hfilter : piece.filter isReserved = [] := by
    rw [List.filter_eq_nil_iff]
    intro c hc
    simp [hpiece c hc]
  rw [pieces, List.splitOnP_eq_singleton hpiece, hfilter]
  rfl

theorem pieces_append (position : Nat) {piece : List Char} (hpiece : IsPiece piece) {c : Char}
    (hreserved : isReserved c) (rest : List Char) :
    pieces position (piece ++ c :: rest) =
      ⟨position, piece, some c⟩ :: pieces (position + byteLength (piece ++ [c])) rest := by
  have hfilter : (piece ++ c :: rest).filter isReserved = c :: rest.filter isReserved := by
    rw [List.filter_append, List.filter_cons_of_pos hreserved, List.filter_eq_nil_iff.2, List.nil_append]
    intro d hd
    simp [hpiece d hd]
  rw [pieces, List.splitOnP_append_cons_of_forall_mem hpiece c hreserved, hfilter]
  rfl

/-! ### The tokens of the pieces -/

theorem reservedToken?_of_isReserved (position : Nat) {c : Char} (hreserved : isReserved c) :
    ∃ kind, reservedKind? c = some kind ∧ reservedToken? position c = some ⟨kind, String.ofList [c], position⟩ := by
  obtain ⟨kind, hkind⟩ := Option.isSome_iff_exists.1 hreserved
  exact ⟨kind, hkind, by rw [reservedToken?, hkind]; rfl⟩

theorem spans_eq_pieces (position : Nat) (text : List Char) :
    spans ⟨position, text⟩ = (pieces position text).flatMap Piece.spans := by
  induction text using piece_induction generalizing position with
  | last piece hpiece =>
    rw [spans_last position hpiece, pieces_of_isPiece position hpiece, List.flatMap_singleton, Piece.spans,
      Piece.tokens]
    simp
  | more piece c rest hpiece hreserved ih =>
    obtain ⟨kind, hkind, htoken⟩ := reservedToken?_of_isReserved (position + byteLength piece) hreserved
    rw [spans_piece position hpiece (endsPiece_cons hreserved rest), spans_reserved _ hkind,
      pieces_append position hpiece hreserved, List.flatMap_cons, ← ih, byteLength_append,
      byteLength_of_isReserved hreserved, Piece.spans, Piece.tokens, Option.bind_some, htoken]
    simp [Nat.add_assoc]

theorem Piece.filter_spans (piece : Piece) : piece.spans.filter (·.kind ≠ .skip) = piece.tokens := by
  have hending : ∀ position, (piece.ending.bind (reservedToken? position)).toList.filter (·.kind ≠ .skip) =
      (piece.ending.bind (reservedToken? position)).toList := by
    intro position
    rw [List.filter_eq_self]
    intro token htoken
    obtain ⟨c, _, hc⟩ := Option.bind_eq_some_iff.1 (Option.mem_toList.1 htoken)
    obtain ⟨kind, hkind, rfl⟩ := Option.map_eq_some_iff.1 hc
    have hreserved := kind_isReserved_of_reservedKind? hkind
    cases kind <;> simp_all [TokenKind.isReserved]
  rw [spans, tokens, ← List.append_assoc, List.filter_append, filter_spans_piece, hending]

theorem tokens_eq_pieces (position : Nat) (text : List Char) :
    tokens ⟨position, text⟩ = (pieces position text).flatMap Piece.tokens := by
  rw [tokens_eq, spans_eq_pieces, List.filter_flatMap]
  exact List.flatMap_congr fun piece _ => piece.filter_spans

/-- Between two names there is always a reserved character. -/
theorem isChain_tokens (position : Nat) (text : List Char) :
    (tokens ⟨position, text⟩).IsChain fun token next => token.kind = .name → next.kind ≠ .name := by
  have hname : ∀ position piece, (nameTokens position piece).IsChain fun token next =>
      token.kind = .name → next.kind ≠ .name := by
    intro position piece
    rw [nameTokens]
    split
    · exact .nil
    · exact .singleton _
  induction text using piece_induction generalizing position with
  | last piece hpiece =>
    rw [tokens_last position hpiece]
    exact hname position piece
  | more piece c rest hpiece hreserved ih =>
    obtain ⟨kind, hkind⟩ := Option.isSome_iff_exists.1 hreserved
    have hne : kind ≠ .name := by
      rintro rfl
      cases kind_isReserved_of_reservedKind? hkind
    rw [tokens_piece position hpiece (endsPiece_cons hreserved rest), tokens_reserved _ hkind]
    refine List.isChain_append.2 ⟨hname position piece, List.isChain_cons.2 ⟨?_, ih _⟩, ?_⟩
    · intro next _ htoken
      exact absurd htoken hne
    · intro token _ next hnext _
      obtain rfl := Option.some.inj hnext
      exact hne

/-! ### Where the pieces are -/

/-- A piece of a text begins where the text begins or after a reserved character, and ends where the text ends or before
a reserved character. -/
theorem exists_of_mem_pieces {front text : List Char} {piece : Piece} (hfront : ∀ c ∈ front.getLast?, isReserved c)
    (hpiece : piece ∈ pieces (byteLength front) text) :
    ∃ before after, front ++ text = before ++ piece.characters ++ after ∧ piece.position = byteLength before ∧
      (∀ c ∈ before.getLast?, isReserved c) ∧ EndsPiece after := by
  induction text using piece_induction generalizing front with
  | last part hpart =>
    rw [pieces_of_isPiece _ hpart, List.mem_singleton] at hpiece
    subst hpiece
    exact ⟨front, [], by simp, rfl, hfront, endsPiece_nil⟩
  | more part c rest hpart hreserved ih =>
    rw [pieces_append _ hpart hreserved, List.mem_cons] at hpiece
    rcases hpiece with rfl | hlater
    · exact ⟨front, c :: rest, by simp, rfl, hfront, endsPiece_cons hreserved rest⟩
    · rw [← byteLength_append] at hlater
      have hlast : ∀ d ∈ (front ++ (part ++ [c])).getLast?, isReserved d := by
        simpa using hreserved
      obtain ⟨before, after, htext, hplace⟩ := ih hlast hlater
      exact ⟨before, after, by rw [← htext]; simp, hplace⟩

namespace Piece

variable {piece : Piece} {token : Token}

theorem eq_of_kind_skip (htoken : token ∈ piece.spans) (hkind : token.kind = .skip) :
    token = ⟨.skip, String.ofList (piece.characters.takeWhile Text.isBlank), piece.position⟩ := by
  have hnot : token ∉ piece.tokens := by
    rw [← filter_spans, List.mem_filter]
    simp [hkind]
  have hblank : token ∈ blankTokens piece.position piece.characters := (List.mem_append.1 htoken).resolve_right hnot
  rw [blankTokens] at hblank
  split at hblank
  · cases hblank
  · exact List.mem_singleton.1 hblank

theorem eq_of_kind_name (htoken : token ∈ piece.tokens) (hkind : token.kind = .name) :
    piece.characters.dropWhile Text.isBlank ≠ [] ∧
      token = ⟨.name, String.ofList (piece.characters.dropWhile Text.isBlank),
        piece.position + byteLength (piece.characters.takeWhile Text.isBlank)⟩ := by
  rcases List.mem_append.1 htoken with hname | hending
  · rw [nameTokens] at hname
    split at hname
    · cases hname
    · exact ⟨‹_›, List.mem_singleton.1 hname⟩
  · obtain ⟨c, _, hc⟩ := Option.bind_eq_some_iff.1 (Option.mem_toList.1 hending)
    obtain ⟨kind, hreserved, rfl⟩ := Option.map_eq_some_iff.1 hc
    obtain rfl : kind = .name := hkind
    cases kind_isReserved_of_reservedKind? hreserved

end Piece

theorem exists_of_mem_pieces_of_text {text : String} {piece : Piece} (hpiece : piece ∈ pieces 0 text.toList) :
    ∃ before after, text.toList = before ++ piece.characters ++ after ∧ piece.position = byteLength before ∧
      (∀ c ∈ before.getLast?, isReserved c) ∧ EndsPiece after := by
  have hfront : ∀ c ∈ ([] : List Char).getLast?, isReserved c := by simp
  exact exists_of_mem_pieces hfront hpiece

variable {text : String}

/-- Blanks are passed over at the start of the text and after a reserved character only. -/
theorem exists_of_mem_spans {blank : Token} (hblank : blank ∈ spans ⟨0, text.toList⟩) (hkind : blank.kind = .skip) :
    ∃ before after : String, text = before ++ blank.text ++ after ∧ blank.position = before.utf8ByteSize ∧
      (∀ c ∈ blank.text.toList, Text.isBlank c) ∧ ∀ c ∈ before.toList.getLast?, isReserved c := by
  rw [spans_eq_pieces] at hblank
  obtain ⟨piece, hpiece, hmem⟩ := List.mem_flatMap.1 hblank
  obtain ⟨before, after, htext, hposition, hbefore, _⟩ := exists_of_mem_pieces_of_text hpiece
  obtain rfl := Piece.eq_of_kind_skip hmem hkind
  refine ⟨String.ofList before, String.ofList (piece.characters.dropWhile Text.isBlank ++ after), ?_, hposition, ?_, ?_⟩
  · apply String.toList_injective
    simp only [String.toList_append, String.toList_ofList, List.append_assoc]
    rw [← List.append_assoc _ _ after, List.takeWhile_append_dropWhile, htext, List.append_assoc]
  · rw [String.toList_ofList]
    exact fun c hc => List.mem_takeWhile_imp hc
  · rwa [String.toList_ofList]

/-- A name begins with a character that is not blank and goes on to the next reserved character. -/
theorem exists_of_mem_tokens {name : Token} (hname : name ∈ tokens ⟨0, text.toList⟩) (hkind : name.kind = .name) :
    ∃ before after : String, text = before ++ name.text ++ after ∧ name.position = before.utf8ByteSize ∧
      (∀ c ∈ name.text.toList.head?, Text.isBlank c = false) ∧ ∀ c ∈ after.toList.head?, isReserved c := by
  rw [tokens_eq_pieces] at hname
  obtain ⟨piece, hpiece, hmem⟩ := List.mem_flatMap.1 hname
  obtain ⟨before, after, htext, hposition, _, hafter⟩ := exists_of_mem_pieces_of_text hpiece
  obtain ⟨_, rfl⟩ := Piece.eq_of_kind_name hmem hkind
  refine ⟨String.ofList (before ++ piece.characters.takeWhile Text.isBlank), String.ofList after, ?_, ?_, ?_, ?_⟩
  · apply String.toList_injective
    simp only [String.toList_append, String.toList_ofList]
    rw [List.append_assoc before, List.takeWhile_append_dropWhile, htext]
  · rw [hposition]
    exact (byteLength_append _ _).symm
  · rw [String.toList_ofList]
    exact Text.head?_dropWhile_eq_false _ _
  · rwa [String.toList_ofList]

/-- Searches of the lexicon of queries go through any text to its end, and what they return is, piece by piece, the name
without the blanks at the start of the piece and the reserved character after it. So no two names follow each other,
blanks are passed over at the start of the text and after a reserved character only, and a name goes on to the next
reserved character, with all the blanks that are in it. -/
theorem stream_eq_pieces (text : String) :
    lexicon.stream (.ofString text) = ⟨(pieces 0 text.toList).flatMap Piece.tokens, none⟩ ∧
    ((lexicon.stream (.ofString text)).tokens.IsChain fun token next => token.kind = .name → next.kind ≠ .name) ∧
    (∀ blank ∈ (read text).found, blank.kind = .skip → ∃ before after : String,
      text = before ++ blank.text ++ after ∧ blank.position = before.utf8ByteSize ∧
        (∀ c ∈ blank.text.toList, Text.isBlank c) ∧ ∀ c ∈ before.toList.getLast?, isReserved c) ∧
    ∀ name ∈ (lexicon.stream (.ofString text)).tokens, name.kind = .name → ∃ before after : String,
      text = before ++ name.text ++ after ∧ name.position = before.utf8ByteSize ∧
        (∀ c ∈ name.text.toList.head?, Text.isBlank c = false) ∧ ∀ c ∈ after.toList.head?, isReserved c := by
  have htokens : (lexicon.stream (.ofString text)).tokens = tokens ⟨0, text.toList⟩ := Lexicon.tokens_stream _ _
  have hstuck : (lexicon.stream (.ofString text)).stuck = none := by
    rw [Lexicon.stuck_stream, stuck_read]
  refine ⟨?_, ?_, ?_, ?_⟩
  · rw [← tokens_eq_pieces, ← htokens, ← hstuck]
  · rw [htokens]
    exact isChain_tokens 0 text.toList
  · intro blank hblank hkind
    exact exists_of_mem_spans hblank hkind
  · intro name hname hkind
    rw [htokens] at hname
    exact exists_of_mem_tokens hname hkind

example : (pieces 0 " é .b=\n,".toList).flatMap Piece.tokens =
    [⟨.name, "é ", 1⟩, ⟨.separator, ".", 4⟩, ⟨.name, "b", 5⟩, ⟨.assign, "=", 6⟩, ⟨.join, ",", 8⟩] := by
  decide

end Pluck.Query
