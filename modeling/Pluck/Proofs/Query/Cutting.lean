import Mathlib.Data.List.TakeWhile
import Pluck.Proofs.Query.Tokens

/-!
# Reading a query by cutting its text

A query can be read without tokens: its text is cut at every comma into clauses, a clause at its equals sign into a path
and a key, and a path at every full stop into names. Blanks before a name are dropped, and only then are escaped forms
resolved. `IsQuery` says when the parts are such that the text is a query. By `ofString_eq_ok_iff` this is exactly when
`ofString` succeeds, and its answer is `cut`.

The tokens are followed clause by clause. What `readPath` answers is known for every text up to the first comma or
equals sign, by induction on the cuts at full stops, and what `readClauses` answers then by induction on the cuts at
commas.
-/

namespace Pluck.Query

/-! ### Cutting -/

/-- The name that a piece of text writes. -/
def nameOf (piece : List Char) : String :=
  Escape.decode (String.ofList (piece.dropWhile Text.isBlank))

def pathPart (clause : List Char) : List Char :=
  clause.takeWhile (· != '=')

def keyPart (clause : List Char) : List Char :=
  (clause.dropWhile (· != '=')).tail

/-- The text has one equals sign, and no full stop after it. -/
def IsClause (clause : List Char) : Prop :=
  clause.count '=' = 1 ∧ '.' ∉ keyPart clause

instance (clause : List Char) : Decidable (IsClause clause) :=
  inferInstanceAs (Decidable (_ ∧ _))

def clauseOf (clause : List Char) : Clause :=
  ⟨((pathPart clause).splitOn '.').map nameOf, nameOf (keyPart clause)⟩

/-- The text of the last key, as far as the text between the last comma and the end has one. -/
def lastKey (text : List Char) : List Char :=
  keyPart ((text.splitOn ',').getLast (List.splitOn_ne_nil ',' text))

/-- Every part between commas is the text of a clause, and the last key is not blank. -/
def IsQuery (text : List Char) : Prop :=
  (∀ clause ∈ text.splitOn ',', IsClause clause) ∧ ∃ c ∈ lastKey text, Text.isBlank c = false

instance (text : List Char) : Decidable (IsQuery text) :=
  have : Decidable (∃ c ∈ lastKey text, Text.isBlank c = false) := List.decidableBEx _ _
  inferInstanceAs (Decidable (_ ∧ _))

def cut (text : List Char) : Query :=
  ⟨(text.splitOn ',').map clauseOf⟩

theorem cut_induction (d : Char) {motive : List Char → Prop} (last : ∀ piece, d ∉ piece → motive piece)
    (more : ∀ piece rest, d ∉ piece → motive rest → motive (piece ++ d :: rest)) (text : List Char) : motive text := by
  have hnot : ∀ {part : List Char}, (∀ c ∈ part, (c == d) = false) → d ∉ part := by
    intro part hpart hmem
    simpa using hpart d hmem
  induction text using split_induction (· == d) with
  | last part hpart => exact last part (hnot hpart)
  | more part c rest hpart hc ih =>
    obtain rfl : c = d := by simpa using hc
    exact more part rest (hnot hpart) ih

theorem not_mem_of_mem_splitOn {d : Char} {text piece : List Char} (hpiece : piece ∈ text.splitOn d) : d ∉ piece := by
  induction text using cut_induction d with
  | last text htext =>
    rw [List.splitOn_eq_singleton htext, List.mem_singleton] at hpiece
    exact hpiece ▸ htext
  | more first rest hfirst ih =>
    rw [List.splitOn_append_cons_self_of_not_mem hfirst, List.mem_cons] at hpiece
    rcases hpiece with rfl | hlater
    · exact hfirst
    · exact ih hlater

theorem cut_of_not_mem {text : List Char} (htext : ',' ∉ text) : cut text = ⟨[clauseOf text]⟩ := by
  rw [cut, List.splitOn_eq_singleton htext, List.map_singleton]

theorem cut_append {clause : List Char} (hclause : ',' ∉ clause) (rest : List Char) :
    cut (clause ++ ',' :: rest) = ⟨clauseOf clause :: (cut rest).clauses⟩ := by
  rw [cut, List.splitOn_append_cons_self_of_not_mem hclause, List.map_cons, cut]

theorem isQuery_of_not_mem {text : List Char} (htext : ',' ∉ text) :
    IsQuery text ↔ IsClause text ∧ ∃ c ∈ keyPart text, Text.isBlank c = false := by
  simp only [IsQuery, lastKey, List.splitOn_eq_singleton htext, List.getLast_singleton, List.forall_mem_singleton]

theorem isQuery_append {clause : List Char} (hclause : ',' ∉ clause) (rest : List Char) :
    IsQuery (clause ++ ',' :: rest) ↔ IsClause clause ∧ IsQuery rest := by
  simp only [IsQuery, lastKey, List.splitOn_append_cons_self_of_not_mem hclause, List.forall_mem_cons,
    List.getLast_cons (List.splitOn_ne_nil ',' rest), and_assoc]

theorem pathPart_append {path : List Char} (hpath : '=' ∉ path) (key : List Char) :
    pathPart (path ++ '=' :: key) = path := by
  refine takeWhile_append_of_head? (fun c hc => ?_) (by simp)
  simpa using ne_of_mem_of_not_mem hc hpath

theorem keyPart_append {path : List Char} (hpath : '=' ∉ path) (key : List Char) :
    keyPart (path ++ '=' :: key) = key := by
  have hdrop : (path ++ '=' :: key).dropWhile (· != '=') = '=' :: key := by
    rw [List.dropWhile_append_of_pos fun c hc => by simpa using ne_of_mem_of_not_mem hc hpath]
    rfl
  rw [keyPart, hdrop, List.tail_cons]

theorem isClause_append_iff {path : List Char} (hpath : '=' ∉ path) (key : List Char) :
    IsClause (path ++ '=' :: key) ↔ '=' ∉ key ∧ '.' ∉ key := by
  rw [IsClause, keyPart_append hpath, List.count_append, List.count_eq_zero_of_not_mem hpath, List.count_cons_self,
    Nat.zero_add, Nat.add_eq_right, List.count_eq_zero]

theorem not_isClause {clause : List Char} (hclause : '=' ∉ clause) : ¬IsClause clause := by
  rintro ⟨hcount, _⟩
  rw [List.count_eq_zero_of_not_mem hclause] at hcount
  cases hcount

theorem exists_of_isClause {clause : List Char} (hclause : IsClause clause) :
    ∃ path key, clause = path ++ '=' :: key ∧ '=' ∉ path ∧ '=' ∉ key ∧ '.' ∉ key := by
  by_cases hmem : '=' ∈ clause
  · obtain ⟨path, key, rfl, hpath⟩ := List.eq_append_cons_of_mem hmem
    obtain ⟨hassign, hseparator⟩ := (isClause_append_iff hpath key).1 hclause
    exact ⟨path, key, rfl, hpath, hassign, hseparator⟩
  · exact absurd hclause (not_isClause hmem)

theorem clauseOf_append {path : List Char} (hpath : '=' ∉ path) (key : List Char) :
    clauseOf (path ++ '=' :: key) = ⟨(path.splitOn '.').map nameOf, nameOf key⟩ := by
  rw [clauseOf, pathPart_append hpath, keyPart_append hpath]

/-! ### Reading a name and a path -/

theorem isPiece_of_not_mem {piece : List Char} (hjoin : ',' ∉ piece) (hseparator : '.' ∉ piece)
    (hassign : '=' ∉ piece) : IsPiece piece := by
  intro c hc
  rw [Bool.eq_false_iff, ne_eq, isReserved_iff]
  rintro (rfl | rfl | rfl)
  · exact hjoin hc
  · exact hseparator hc
  · exact hassign hc

/-- What follows an equals sign is a key, or it goes on after one with a full stop or another equals sign. -/
theorem exists_piece_of_not_key {key : List Char} (hjoin : ',' ∉ key) (hkey : ¬('=' ∉ key ∧ '.' ∉ key)) :
    ∃ piece c rest, IsPiece piece ∧ (c = '.' ∨ c = '=') ∧ key = piece ++ c :: rest := by
  rcases exists_piece key with hpiece | ⟨piece, c, rest, hpiece, hreserved, rfl⟩
  · exact absurd ⟨hpiece.not_mem rfl, hpiece.not_mem rfl⟩ hkey
  · refine ⟨piece, c, rest, hpiece, ((isReserved_iff c).1 hreserved).resolve_left ?_, rfl⟩
    rintro rfl
    simp at hjoin

theorem nameOf_of_blank {piece : List Char} (hblank : piece.dropWhile Text.isBlank = []) : nameOf piece = "" := by
  rw [nameOf, hblank]
  rfl

variable (stuck : Option Stuck) (offset : Nat)

/-- Before a reserved character there is always a name. -/
theorem readName_piece {piece : List Char} {c : Char} {kind : TokenKind} (hpiece : IsPiece piece)
    (hkind : reservedKind? c = some kind) (rest : List Char) :
    readName stuck (tokens ⟨offset, piece ++ c :: rest⟩) =
      .ok (nameOf piece, ⟨kind, String.ofList [c], offset + byteLength piece⟩ ::
        tokens ⟨offset + byteLength piece + 1, rest⟩) := by
  have hends : EndsPiece (c :: rest) := endsPiece_cons (isReserved_of_reservedKind? hkind) rest
  rw [tokens_piece offset hpiece hends, tokens_reserved _ hkind, nameTokens]
  by_cases hblank : piece.dropWhile Text.isBlank = []
  · rw [if_pos hblank, nameOf_of_blank hblank, List.nil_append, readName,
      if_pos (kind_isReserved_of_reservedKind? hkind)]
  · rw [if_neg hblank, nameOf, List.singleton_append, readName]
    rfl

/-- At the end of the text there is a name only if some character is not blank. -/
theorem readName_last {piece : List Char} (hpiece : IsPiece piece) :
    readName stuck (tokens ⟨offset, piece⟩) =
      if piece.dropWhile Text.isBlank = [] then .error (.atEnd stuck .name) else .ok (nameOf piece, []) := by
  rw [tokens_last offset hpiece, nameTokens]
  by_cases hblank : piece.dropWhile Text.isBlank = []
  · rw [if_pos hblank, if_pos hblank, readName]
  · rw [if_neg hblank, if_neg hblank, readName]
    rfl

theorem readPath_separator {piece : List Char} (hpiece : IsPiece piece) (rest : List Char) :
    readPath stuck (tokens ⟨offset, piece ++ '.' :: rest⟩) =
      (readPath stuck (tokens ⟨offset + byteLength piece + 1, rest⟩)).map fun (names, after) =>
        (nameOf piece :: names, after) := by
  rw [readPath_eq, readName_piece stuck offset hpiece (show reservedKind? '.' = some .separator from rfl)]
  rfl

/-- The names of a path up to an equals sign are those between the full stops. -/
theorem readPath_assign {path : List Char} (hjoin : ',' ∉ path) (hassign : '=' ∉ path) (rest : List Char) :
    readPath stuck (tokens ⟨offset, path ++ '=' :: rest⟩) =
      .ok ((path.splitOn '.').map nameOf, tokens ⟨offset + byteLength path + 1, rest⟩) := by
  induction path using cut_induction '.' generalizing offset with
  | last piece hpiece =>
    rw [readPath_eq, readName_piece stuck offset (isPiece_of_not_mem hjoin hpiece hassign)
      (show reservedKind? '=' = some .assign from rfl), List.splitOn_eq_singleton hpiece]
    rfl
  | more piece later hpiece ih =>
    simp only [List.mem_append, List.mem_cons, not_or] at hjoin hassign
    rw [List.append_assoc, List.cons_append,
      readPath_separator stuck offset (isPiece_of_not_mem hjoin.1 hpiece hassign.1), ih _ hjoin.2.2 hassign.2.2,
      List.splitOn_append_cons_self_of_not_mem hpiece, byteLength_append,
      byteLength_cons_of_isReserved (show isReserved '.' from rfl)]
    simp only [Except.map, List.map_cons, Nat.add_assoc]

theorem readPath_join {path : List Char} (hjoin : ',' ∉ path) (hassign : '=' ∉ path) (rest : List Char) :
    readPath stuck (tokens ⟨offset, path ++ ',' :: rest⟩) =
      .error ⟨.unexpectedEnd .assign, some (offset + byteLength path + 1)⟩ := by
  induction path using cut_induction '.' generalizing offset with
  | last piece hpiece =>
    rw [readPath_eq, readName_piece stuck offset (isPiece_of_not_mem hjoin hpiece hassign)
      (show reservedKind? ',' = some .join from rfl)]
    rfl
  | more piece later hpiece ih =>
    simp only [List.mem_append, List.mem_cons, not_or] at hjoin hassign
    rw [List.append_assoc, List.cons_append,
      readPath_separator stuck offset (isPiece_of_not_mem hjoin.1 hpiece hassign.1), ih _ hjoin.2.2 hassign.2.2,
      byteLength_append, byteLength_cons_of_isReserved (show isReserved '.' from rfl)]
    simp only [Except.map, Nat.add_assoc]

/-- At the end of the text, a path misses its last name if what follows its last full stop is blank, and its equals sign
otherwise. -/
theorem readPath_last {path : List Char} (hjoin : ',' ∉ path) (hassign : '=' ∉ path) :
    readPath stuck (tokens ⟨offset, path⟩) =
      .error (.atEnd stuck
        (if ((path.splitOn '.').getLast (List.splitOn_ne_nil '.' path)).dropWhile Text.isBlank = [] then .name
          else .assign)) := by
  induction path using cut_induction '.' generalizing offset with
  | last piece hpiece =>
    rw [readPath_eq, readName_last stuck offset (isPiece_of_not_mem hjoin hpiece hassign)]
    simp only [List.splitOn_eq_singleton hpiece, List.getLast_singleton]
    by_cases hblank : piece.dropWhile Text.isBlank = [] <;> simp [hblank]
  | more piece later hpiece ih =>
    simp only [List.mem_append, List.mem_cons, not_or] at hjoin hassign
    rw [readPath_separator stuck offset (isPiece_of_not_mem hjoin.1 hpiece hassign.1), ih _ hjoin.2.2 hassign.2.2]
    simp only [List.splitOn_append_cons_self_of_not_mem hpiece, List.getLast_cons (List.splitOn_ne_nil '.' later),
      Except.map]

/-! ### Reading a clause -/

theorem readClause_append {path : List Char} (hjoin : ',' ∉ path) (hassign : '=' ∉ path) (rest : List Char) :
    readClause stuck (tokens ⟨offset, path ++ '=' :: rest⟩) =
      (readName stuck (tokens ⟨offset + byteLength path + 1, rest⟩)).map fun (key, after) =>
        (⟨(path.splitOn '.').map nameOf, key⟩, after) := by
  rw [readClause, readPath_assign stuck offset hjoin hassign]
  rfl

/-- After a key nothing but a comma can follow. -/
theorem readClauses_of_key {path piece : List Char} {c : Char} {kind : TokenKind} (hjoin : ',' ∉ path)
    (hassign : '=' ∉ path) (hpiece : IsPiece piece) (hkind : reservedKind? c = some kind) (hne : kind ≠ .join)
    (rest : List Char) :
    readClauses stuck (tokens ⟨offset, path ++ '=' :: (piece ++ c :: rest)⟩) =
      .error ⟨.unexpectedToken (offset + byteLength path + 1 + byteLength piece + 1) kind .join,
        some (offset + byteLength path + 1 + byteLength piece + 1)⟩ := by
  have hstop : c.utf8Size = 1 := by
    simpa [byteLength] using byteLength_of_isReserved (isReserved_of_reservedKind? hkind)
  rw [readClauses_eq, readClause_append stuck offset hjoin hassign, readName_piece stuck _ hpiece hkind]
  simp [Except.map, hne, Token.stop, hstop]

theorem readClauses_of_isClause {clause : List Char} (hjoin : ',' ∉ clause) (hclause : IsClause clause)
    (rest : List Char) :
    readClauses stuck (tokens ⟨offset, clause ++ ',' :: rest⟩) =
      (readClauses stuck (tokens ⟨offset + byteLength clause + 1, rest⟩)).map (clauseOf clause :: ·) := by
  obtain ⟨path, key, rfl, hpath, hassign, hseparator⟩ := exists_of_isClause hclause
  simp only [List.mem_append, List.mem_cons, not_or] at hjoin
  rw [List.append_assoc, List.cons_append, readClauses_eq, readClause_append stuck offset hjoin.1 hpath,
    readName_piece stuck _ (isPiece_of_not_mem hjoin.2.2 hseparator hassign)
      (show reservedKind? ',' = some .join from rfl), clauseOf_append hpath, byteLength_append,
    byteLength_cons_of_isReserved (show isReserved '=' from rfl)]
  simp only [Except.map, if_true, Nat.add_assoc]

theorem readClauses_of_isClause_last {clause : List Char} (hjoin : ',' ∉ clause) (hclause : IsClause clause) :
    readClauses none (tokens ⟨offset, clause⟩) =
      if (keyPart clause).dropWhile Text.isBlank = [] then .error (.atEnd none .name) else .ok [clauseOf clause] := by
  obtain ⟨path, key, rfl, hpath, hassign, hseparator⟩ := exists_of_isClause hclause
  simp only [List.mem_append, List.mem_cons, not_or] at hjoin
  rw [readClauses_eq, readClause_append none offset hjoin.1 hpath,
    readName_last none _ (isPiece_of_not_mem hjoin.2.2 hseparator hassign), clauseOf_append hpath, keyPart_append hpath]
  by_cases hblank : key.dropWhile Text.isBlank = [] <;> simp [hblank, Except.map]

/-- What follows a clause: the end of the text or a comma. -/
def EndsClause (rest : List Char) : Prop :=
  ∀ c ∈ rest.head?, c = ','

theorem exists_failure_of_not_isClause {clause : List Char} (hjoin : ',' ∉ clause) (hclause : ¬IsClause clause)
    {rest : List Char} (hrest : EndsClause rest) :
    ∃ failure, readClauses stuck (tokens ⟨offset, clause ++ rest⟩) = .error failure := by
  by_cases hmem : '=' ∈ clause
  · obtain ⟨path, key, rfl, hpath⟩ := List.eq_append_cons_of_mem hmem
    simp only [List.mem_append, List.mem_cons, not_or] at hjoin
    rw [isClause_append_iff hpath] at hclause
    obtain ⟨piece, c, more, hpiece, hend, rfl⟩ := exists_piece_of_not_key hjoin.2.2 hclause
    obtain ⟨kind, hkind, hne⟩ : ∃ kind, reservedKind? c = some kind ∧ kind ≠ .join := by
      rcases hend with rfl | rfl
      · exact ⟨.separator, rfl, by decide⟩
      · exact ⟨.assign, rfl, by decide⟩
    rw [List.append_assoc, List.cons_append, List.append_assoc, List.cons_append]
    exact ⟨_, readClauses_of_key stuck offset hjoin.1 hpath hpiece hkind hne _⟩
  · cases rest with
    | nil =>
      rw [List.append_nil, readClauses_eq, readClause, readPath_last stuck offset hjoin hmem]
      exact ⟨_, rfl⟩
    | cons c rest =>
      obtain rfl : c = ',' := hrest c rfl
      rw [readClauses_eq, readClause, readPath_join stuck offset hjoin hmem]
      exact ⟨_, rfl⟩

/-! ### Reading a query -/

theorem dropWhile_isBlank_eq_nil_iff (text : List Char) :
    text.dropWhile Text.isBlank = [] ↔ ¬∃ c ∈ text, Text.isBlank c = false := by
  rw [List.dropWhile_eq_nil_iff]
  simp

theorem readClauses_eq_ok_iff (text : List Char) (clauses : List Clause) :
    readClauses none (tokens ⟨offset, text⟩) = .ok clauses ↔ IsQuery text ∧ clauses = (cut text).clauses := by
  induction text using cut_induction ',' generalizing offset clauses with
  | last clause hjoin =>
    rw [isQuery_of_not_mem hjoin, cut_of_not_mem hjoin]
    by_cases hclause : IsClause clause
    · have hkey := dropWhile_isBlank_eq_nil_iff (keyPart clause)
      rw [readClauses_of_isClause_last offset hjoin hclause]
      by_cases hblank : (keyPart clause).dropWhile Text.isBlank = []
      · rw [if_pos hblank]
        simp [hkey.1 hblank]
      · rw [if_neg hblank, Except.ok.injEq, eq_comm]
        simp [hclause, not_not.1 (mt hkey.2 hblank)]
    · obtain ⟨failure, hfailure⟩ :=
        exists_failure_of_not_isClause none offset hjoin hclause (show EndsClause [] by simp [EndsClause])
      rw [List.append_nil] at hfailure
      simp [hfailure, hclause]
  | more clause rest hjoin ih =>
    rw [isQuery_append hjoin, cut_append hjoin]
    by_cases hclause : IsClause clause
    · rw [readClauses_of_isClause none offset hjoin hclause]
      cases hlater : readClauses none (tokens ⟨offset + byteLength clause + 1, rest⟩) with
      | error failure =>
        have hnot : ¬IsQuery rest := fun hquery => by
          rw [(ih _ _).2 ⟨hquery, rfl⟩] at hlater
          cases hlater
        simp [Except.map, hnot]
      | ok later =>
        obtain ⟨hquery, rfl⟩ := (ih _ later).1 hlater
        simp [Except.map, hclause, hquery, eq_comm]
    · obtain ⟨failure, hfailure⟩ :=
        exists_failure_of_not_isClause none offset hjoin hclause (show EndsClause (',' :: rest) by simp [EndsClause])
      simp [hfailure, hclause]

theorem ofString_eq_ok_iff (text : String) (query : Query) :
    ofString text = .ok query ↔ IsQuery text.toList ∧ query = cut text.toList := by
  have hclauses := readClauses_eq_ok_iff 0 text.toList
  rw [tokens] at hclauses
  rw [ofString, ofReading, read, Source.ofString, stuck_read]
  constructor
  · intro hread
    cases hresult : readClauses none (lexicon.kept (lexicon.read ⟨0, text.toList⟩)) with
    | error failure => simp [hresult, Except.map, Except.mapError] at hread
    | ok clauses =>
      obtain ⟨hquery, rfl⟩ := (hclauses clauses).1 hresult
      simp only [hresult, Except.map, Except.mapError, Except.ok.injEq] at hread
      exact ⟨hquery, hread.symm⟩
  · rintro ⟨hquery, rfl⟩
    rw [(hclauses _).2 ⟨hquery, rfl⟩]
    rfl

/-- A text is a query exactly if every part between commas has one equals sign and no full stop after it, and not all
of what follows the last equals sign is blank. Its clauses are then these parts in their order, with the pieces between
full stops as the path and what follows the equals sign as the key. -/
theorem ofString_reads_parts (text : String) (query : Query) :
    ofString text = .ok query ↔
      (∀ clause ∈ text.toList.splitOn ',', clause.count '=' = 1 ∧ '.' ∉ keyPart clause) ∧
      (∃ c ∈ keyPart ((text.toList.splitOn ',').getLast (List.splitOn_ne_nil ',' text.toList)),
        Text.isBlank c = false) ∧
      query.clauses = (text.toList.splitOn ',').map fun clause =>
        ⟨((pathPart clause).splitOn '.').map nameOf, nameOf (keyPart clause)⟩ := by
  have hcut : query = cut text.toList ↔ query.clauses = (text.toList.splitOn ',').map clauseOf := by
    cases query
    rw [cut, Query.mk.injEq]
  rw [ofString_eq_ok_iff, hcut, IsQuery, and_assoc]
  rfl

example : IsQuery " a. b =x,%5C%2C= y".toList ∧ ¬IsQuery "a=b.c, =d".toList ∧ ¬IsQuery "a=b,c= ".toList := by
  decide

example : cut " a. b =x,%5C%2C= ".toList = ⟨[⟨["a", "b "], "x"⟩, ⟨[","], ""⟩]⟩ := by
  decide

end Pluck.Query
