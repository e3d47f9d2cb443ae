import Pluck.Proofs.Query.Cutting

/-!
# The first fault in a text

A text that is not a query has a first part between commas that is not as it should be: it has no equals sign, or it
goes on after its key, or it is the last part and has a blank key. `Fault` says which error this makes, and where. It
looks at the characters of the part only, so that nothing is said about tokens or about the place at which a reader has
to give up. `ofString_eq_error_iff` is the main statement: the error of a text is that of its first fault.
-/

namespace Pluck.Query

/-- What follows the last full stop. -/
def lastName (path : List Char) : List Char :=
  (path.splitOn '.').getLast (List.splitOn_ne_nil '.' path)

/-- What is wrong with a part between commas, where `front` is the text in front of it. -/
inductive Fault (front clause : List Char) (isLast : Bool) : ParseError → Prop
  /-- The text ends where a path needs another name. -/
  | noName (hassign : '=' ∉ clause) (hend : isLast ∧ ∀ c ∈ lastName clause, Text.isBlank c) :
    Fault front clause isLast (.unexpectedEnd .name)
  /-- The path has its names and no equals sign. -/
  | noAssign (hassign : '=' ∉ clause) (hend : ¬(isLast ∧ ∀ c ∈ lastName clause, Text.isBlank c)) :
    Fault front clause isLast (.unexpectedEnd .assign)
  /-- After the equals sign there is another one or a full stop, of which `c` is the first. -/
  | goesOn {path key rest : List Char} {c : Char} {kind : TokenKind}
    (hclause : clause = path ++ '=' :: (key ++ c :: rest)) (hpath : '=' ∉ path) (hkey : '=' ∉ key ∧ '.' ∉ key)
    (hkind : c = '.' ∧ kind = .separator ∨ c = '=' ∧ kind = .assign) :
    Fault front clause isLast (.unexpectedToken (byteLength (front ++ path ++ '=' :: key ++ [c])) kind .join)
  /-- The text ends where a key is due. -/
  | noKey {path key : List Char} (hclause : clause = path ++ '=' :: key) (hpath : '=' ∉ path)
    (hkey : '=' ∉ key ∧ '.' ∉ key) (hend : isLast ∧ ∀ c ∈ key, Text.isBlank c) :
    Fault front clause isLast (.unexpectedEnd .name)

/-! ### The error of a faulty part -/

section

variable {front clause rest : List Char} {reason : ParseError}

theorem readClauses_of_no_assign (offset : Nat) (hjoin : ',' ∉ clause) (hassign : '=' ∉ clause) :
    readClauses none (tokens ⟨offset, clause⟩) =
      .error (.atEnd none (if (lastName clause).dropWhile Text.isBlank = [] then .name else .assign)) := by
  rw [readClauses_eq, readClause, readPath_last none _ hjoin hassign]
  rfl

theorem readClauses_of_fault (hjoin : ',' ∉ clause) (hrest : EndsClause rest)
    (hfault : Fault front clause rest.isEmpty reason) :
    ∃ noticed, readClauses none (tokens ⟨byteLength front, clause ++ rest⟩) = .error ⟨reason, noticed⟩ := by
  cases hfault with
  | noName hassign hend =>
    obtain ⟨hlast, hblank⟩ := hend
    obtain rfl := List.isEmpty_iff.1 hlast
    rw [List.append_nil, readClauses_of_no_assign _ hjoin hassign, if_pos (List.dropWhile_eq_nil_iff.2 hblank)]
    exact ⟨_, rfl⟩
  | noAssign hassign hend =>
    cases rest with
    | nil =>
      rw [List.append_nil, readClauses_of_no_assign _ hjoin hassign, if_neg]
      · exact ⟨_, rfl⟩
      · exact fun hblank => hend ⟨rfl, List.dropWhile_eq_nil_iff.1 hblank⟩
    | cons c rest =>
      obtain rfl : c = ',' := hrest c rfl
      rw [readClauses_eq, readClause, readPath_join none _ hjoin hassign]
      exact ⟨_, rfl⟩
  | @goesOn path key later c kind hclause hpath hkey hkind =>
    subst hclause
    simp only [List.mem_append, List.mem_cons, not_or] at hjoin
    have hreserved : reservedKind? c = some kind ∧ kind ≠ .join ∧ isReserved c := by
      rcases hkind with ⟨rfl, rfl⟩ | ⟨rfl, rfl⟩ <;> decide
    have hpiece : IsPiece key := isPiece_of_not_mem hjoin.2.2.1 hkey.2 hkey.1
    have hstop : byteLength (front ++ path ++ '=' :: key ++ [c]) =
        byteLength front + byteLength path + 1 + byteLength key + 1 := by
      simp only [byteLength_append, byteLength_of_isReserved hreserved.2.2,
        byteLength_cons_of_isReserved (show isReserved '=' from rfl), Nat.add_assoc]
    rw [List.append_assoc, List.cons_append, List.append_assoc, List.cons_append, hstop,
      readClauses_of_key none _ hjoin.1 hpath hpiece hreserved.1 hreserved.2.1]
    exact ⟨_, rfl⟩
  | noKey hclause hpath hkey hend =>
    obtain ⟨hlast, hblank⟩ := hend
    obtain rfl := List.isEmpty_iff.1 hlast
    subst hclause
    rw [List.append_nil, readClauses_of_isClause_last _ hjoin ((isClause_append_iff hpath _).2 hkey),
      keyPart_append hpath, if_pos (List.dropWhile_eq_nil_iff.2 hblank)]
    exact ⟨_, rfl⟩

end

/-! ### The first faulty part -/

/-- A part that is no clause, or the last one with a blank key. -/
def IsFaulty (clause : List Char) (isLast : Bool) : Prop :=
  ¬IsClause clause ∨ IsClause clause ∧ isLast ∧ ∀ c ∈ keyPart clause, Text.isBlank c

theorem exists_fault {clause : List Char} {isLast : Bool} (hjoin : ',' ∉ clause) (hfaulty : IsFaulty clause isLast)
    (front : List Char) : ∃ reason, Fault front clause isLast reason := by
  by_cases hassign : '=' ∈ clause
  · obtain ⟨path, key, rfl, hpath⟩ := List.eq_append_cons_of_mem hassign
    rw [IsFaulty, isClause_append_iff hpath, keyPart_append hpath] at hfaulty
    rcases hfaulty with hclause | ⟨hkey, hend⟩
    · simp only [List.mem_append, List.mem_cons, not_or] at hjoin
      obtain ⟨piece, c, rest, hpiece, hc, rfl⟩ := exists_piece_of_not_key hjoin.2.2 hclause
      have hkey : '=' ∉ piece ∧ '.' ∉ piece := ⟨hpiece.not_mem rfl, hpiece.not_mem rfl⟩
      rcases hc with rfl | rfl
      · exact ⟨_, .goesOn rfl hpath hkey (.inl ⟨rfl, rfl⟩)⟩
      · exact ⟨_, .goesOn rfl hpath hkey (.inr ⟨rfl, rfl⟩)⟩
    · exact ⟨_, .noKey rfl hpath hkey hend⟩
  · by_cases hend : isLast ∧ ∀ c ∈ lastName clause, Text.isBlank c
    · exact ⟨_, .noName hassign hend⟩
    · exact ⟨_, .noAssign hassign hend⟩

theorem exists_first_faulty {text : List Char} (hquery : ¬IsQuery text) :
    ∃ before clause after, text.splitOn ',' = before ++ clause :: after ∧ (∀ earlier ∈ before, IsClause earlier) ∧
      IsFaulty clause after.isEmpty := by
  induction text using cut_induction ',' with
  | last clause hjoin =>
    refine ⟨[], clause, [], List.splitOn_eq_singleton hjoin, by simp, ?_⟩
    rw [isQuery_of_not_mem hjoin] at hquery
    by_cases hclause : IsClause clause
    · refine .inr ⟨hclause, rfl, fun c hc => ?_⟩
      simpa using fun hblank => hquery ⟨hclause, c, hc, hblank⟩
    · exact .inl hclause
  | more clause rest hjoin ih =>
    rw [isQuery_append hjoin] at hquery
    rw [List.splitOn_append_cons_self_of_not_mem hjoin]
    by_cases hclause : IsClause clause
    · obtain ⟨before, faulty, after, hsplit, hbefore, hfaulty⟩ := ih fun hrest => hquery ⟨hclause, hrest⟩
      exact ⟨clause :: before, faulty, after, by rw [hsplit]; rfl, List.forall_mem_cons.2 ⟨hclause, hbefore⟩, hfaulty⟩
    · exact ⟨[], clause, _, rfl, by simp, .inl hclause⟩

/-! ### The error of a text -/

/-- The clauses before the first fault are read, one after the other. -/
theorem readClauses_of_first {front text clause : List Char} {before after : List (List Char)}
    {reason : ParseError} (hsplit : text.splitOn ',' = before ++ clause :: after)
    (hbefore : ∀ earlier ∈ before, IsClause earlier)
    (hfault : Fault (front ++ before.flatMap (· ++ [','])) clause after.isEmpty reason) :
    ∃ noticed, readClauses none (tokens ⟨byteLength front, text⟩) = .error ⟨reason, noticed⟩ := by
  induction text using cut_induction ',' generalizing front before with
  | last piece hpiece =>
    rw [List.splitOn_eq_singleton hpiece, eq_comm, List.append_eq_singleton_iff] at hsplit
    simp only [reduceCtorEq, and_false, or_false, List.cons.injEq] at hsplit
    obtain ⟨rfl, rfl, rfl⟩ := hsplit
    rw [List.flatMap_nil, List.append_nil] at hfault
    have hread := readClauses_of_fault hpiece (show EndsClause [] by simp [EndsClause]) hfault
    rwa [List.append_nil] at hread
  | more piece rest hpiece ih =>
    rw [List.splitOn_append_cons_self_of_not_mem hpiece] at hsplit
    cases before with
    | nil =>
      obtain ⟨rfl, rfl⟩ := List.cons.inj hsplit
      rw [List.flatMap_nil, List.append_nil, List.isEmpty_eq_false_iff.2 (List.splitOn_ne_nil ',' rest)] at hfault
      exact readClauses_of_fault hpiece (show EndsClause (',' :: rest) by simp [EndsClause]) hfault
    | cons first before =>
      obtain ⟨rfl, hrest⟩ := List.cons.inj hsplit
      obtain ⟨hfirst, hlater⟩ := List.forall_mem_cons.1 hbefore
      have hfront : byteLength (front ++ (piece ++ [','])) = byteLength front + byteLength piece + 1 := by
        rw [byteLength_append, byteLength_append, byteLength_of_isReserved (show isReserved ',' from rfl), Nat.add_assoc]
      rw [List.flatMap_cons, ← List.append_assoc] at hfault
      obtain ⟨noticed, hread⟩ := ih hrest hlater hfault
      rw [hfront] at hread
      rw [readClauses_of_isClause none _ hpiece hfirst, hread]
      exact ⟨noticed, rfl⟩

theorem ofString_of_first {text : String} {clause : List Char} {before after : List (List Char)} {reason : ParseError}
    (hsplit : text.toList.splitOn ',' = before ++ clause :: after) (hbefore : ∀ earlier ∈ before, IsClause earlier)
    (hfault : Fault (before.flatMap (· ++ [','])) clause after.isEmpty reason) : ofString text = .error reason := by
  obtain ⟨noticed, hread⟩ :
      ∃ noticed, readClauses none (tokens ⟨byteLength [], text.toList⟩) = .error ⟨reason, noticed⟩ :=
    readClauses_of_first hsplit hbefore hfault
  rw [tokens, show byteLength [] = 0 from rfl] at hread
  rw [ofString, ofReading, read, Source.ofString, stuck_read, hread]
  rfl

/-- A text that is not a query has the error of its first faulty part, where the text in front of a part is that of the
parts before it, each with its comma. This error is never that no token begins somewhere, and the only tokens that it
can be about are a full stop and an equals sign in the place of a comma. -/
theorem ofString_eq_error_iff (text : String) :
    (∀ reason, ofString text = .error reason ↔
      ∃ before clause after, text.toList.splitOn ',' = before ++ clause :: after ∧
        (∀ earlier ∈ before, earlier.count '=' = 1 ∧ '.' ∉ keyPart earlier) ∧
        Fault (before.flatMap (· ++ [','])) clause after.isEmpty reason) ∧
    (∀ reason, ofString text ≠ .error (.stuck reason)) ∧
    ∀ position found expected, ofString text = .error (.unexpectedToken position found expected) →
      expected = .join ∧ (found = .separator ∨ found = .assign) := by
  have hiff : ∀ reason, ofString text = .error reason ↔
      ∃ before clause after, text.toList.splitOn ',' = before ++ clause :: after ∧
        (∀ earlier ∈ before, IsClause earlier) ∧ Fault (before.flatMap (· ++ [','])) clause after.isEmpty reason := by
    intro reason
    constructor
    · intro herror
      have hquery : ¬IsQuery text.toList := fun hquery => by
        cases herror.symm.trans ((ofString_eq_ok_iff text _).2 ⟨hquery, rfl⟩)
      obtain ⟨before, clause, after, hsplit, hbefore, hfaulty⟩ := exists_first_faulty hquery
      have hjoin : ',' ∉ clause := not_mem_of_mem_splitOn (hsplit ▸ List.mem_append_right before List.mem_cons_self)
      obtain ⟨other, hfault⟩ := exists_fault hjoin hfaulty (before.flatMap (· ++ [',']))
      obtain rfl := Except.error.inj (herror.symm.trans (ofString_of_first hsplit hbefore hfault))
      exact ⟨before, clause, after, hsplit, hbefore, hfault⟩
    · rintro ⟨before, clause, after, hsplit, hbefore, hfault⟩
      exact ofString_of_first hsplit hbefore hfault
  refine ⟨hiff, fun reason herror => ?_, fun position found expected herror => ?_⟩
  · obtain ⟨_, _, _, _, _, hfault⟩ := (hiff _).1 herror
    cases hfault
  · obtain ⟨_, _, _, _, _, hfault⟩ := (hiff _).1 herror
    cases hfault with
    | goesOn _ _ _ hkind => exact ⟨rfl, hkind.imp And.right And.right⟩

/-- The second part goes on after its key. The place is counted in bytes, of which an accented letter has two. -/
theorem ofString_eq_error_iff_accent :
    ofString "é=x, é.c=y.z,d" = .error (.unexpectedToken 13 .separator .join) ∧
      (∀ reason, ofString "é=x, é.c=y.z,d" ≠ .error (.stuck reason)) ∧ TokenKind.join = .join ∧
      (TokenKind.separator = .separator ∨ TokenKind.separator = .assign) := by
  obtain ⟨hiff, hstuck, hkinds⟩ := ofString_eq_error_iff "é=x, é.c=y.z,d"
  have hfault : Fault "é=x,".toList " é.c=y.z".toList false (.unexpectedToken 13 .separator .join) :=
    .goesOn (show " é.c=y.z".toList = " é.c".toList ++ '=' :: (['y'] ++ '.' :: ['z']) from rfl) (by decide) (by decide)
      (.inl ⟨rfl, rfl⟩)
  have herror := (hiff _).2 ⟨["é=x".toList], " é.c=y.z".toList, [['d']], by decide, by decide, hfault⟩
  exact ⟨herror, hstuck, hkinds _ _ _ herror⟩

end Pluck.Query
