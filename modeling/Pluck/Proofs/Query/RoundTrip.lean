import Pluck.Proofs.Query.Names

/-!
# Printing a query and reading it again

The printed form escapes nothing. Where no name has a character with a meaning of its own, cutting the printed form
gives back the names as they stand in it (`cut_render`), and a complete query is read with its names decoded
(`ofString_render`). Two main statements say for which queries this gives back the query itself: for those whose
names are encoded before they are printed, `ofString_render_encode_eq_ok_iff`, and for those that are printed as they
are, `ofString_render_eq_ok_iff`. The first kind are all the queries that are read from any text
(`exists_ofString_eq_ok_iff`). In the second no name comes back by accident. What is read has one clause more than
the text has commas, and a clause has one equals sign, so that printing can have put in no others; and a name that
begins with a blank comes back shorter.
-/

namespace Pluck.Query

/-! ### The printed form -/

theorem count_intercalate (c d : Char) (parts : List (List Char)) :
    ([d].intercalate parts).count c = (parts.map (List.count c)).sum + if d = c then parts.length - 1 else 0 := by
  induction parts with
  | nil => simp
  | cons part parts ih =>
    by_cases hparts : parts = []
    · simp [hparts]
    · have hpos := List.length_pos_iff.2 hparts
      rw [List.intercalate_cons_of_ne_nil hparts, List.count_append, List.count_append, ih, List.map_cons,
        List.sum_cons, List.count_singleton, List.length_cons]
      by_cases hsame : d = c
      · simp only [hsame, if_true, beq_self_eq_true]
        omega
      · simp only [hsame, if_false, beq_iff_eq]
        omega

theorem length_splitOn (d : Char) (text : List Char) : (text.splitOn d).length = text.count d + 1 := by
  have hcount := count_intercalate d d (text.splitOn d)
  have hpos := List.length_pos_iff.2 (List.splitOn_ne_nil d text)
  have hpieces : ((text.splitOn d).map (List.count d)).sum = 0 := by
    rw [List.sum_eq_zero_iff_forall_eq_nat, List.forall_mem_map]
    exact fun piece hpiece => List.count_eq_zero_of_not_mem (not_mem_of_mem_splitOn hpiece)
  rw [List.intercalate_splitOn, hpieces, if_pos rfl] at hcount
  omega

theorem toList_render (query : Query) :
    query.render.toList = [','].intercalate (query.clauses.map fun clause => clause.render.toList) := by
  rw [render, String.toList_intercalate, List.map_map]
  rfl

theorem toList_pathText (clause : Clause) :
    clause.pathText.toList = ['.'].intercalate (clause.path.map String.toList) := by
  rw [Clause.pathText, String.toList_intercalate]
  rfl

theorem toList_render_clause (clause : Clause) :
    clause.render.toList = clause.pathText.toList ++ '=' :: clause.key.toList := by
  rw [Clause.render, String.toList_append, String.toList_append, List.append_assoc]
  rfl

theorem count_render_clause {c : Char} (hc : c ≠ '.') (clause : Clause) :
    clause.render.toList.count c =
      (clause.names.map fun name => name.toList.count c).sum + if '=' = c then 1 else 0 := by
  rw [toList_render_clause, List.count_append, List.count_cons, toList_pathText, count_intercalate, if_neg hc.symm,
    List.map_map, Clause.names, List.map_append, List.sum_append, List.map_singleton, List.sum_singleton]
  simp only [beq_iff_eq, Nat.add_zero, Nat.add_assoc]
  rfl

theorem sum_count_eq_zero_iff (c : Char) (names : List String) :
    (names.map fun name => name.toList.count c).sum = 0 ↔ ∀ name ∈ names, c ∉ name.toList := by
  rw [List.sum_eq_zero_iff_forall_eq_nat, List.forall_mem_map]
  exact forall₂_congr fun name _ => List.count_eq_zero

theorem not_mem_pathText {c : Char} (hc : c ≠ '.') {clause : Clause} (hpath : ∀ name ∈ clause.path, c ∉ name.toList) :
    c ∉ clause.pathText.toList := by
  rw [← List.count_eq_zero, toList_pathText, count_intercalate, if_neg hc.symm, Nat.add_zero, List.map_map]
  exact (sum_count_eq_zero_iff c clause.path).2 hpath

theorem not_mem_render_clause_iff (clause : Clause) :
    ',' ∉ clause.render.toList ↔ ∀ name ∈ clause.names, ',' ∉ name.toList := by
  rw [← List.count_eq_zero, count_render_clause (by decide), if_neg (by decide), Nat.add_zero, sum_count_eq_zero_iff]

theorem count_assign_eq_one_iff (clause : Clause) :
    clause.render.toList.count '=' = 1 ↔ ∀ name ∈ clause.names, '=' ∉ name.toList := by
  rw [count_render_clause (by decide), if_pos rfl, Nat.add_eq_right, sum_count_eq_zero_iff]

/-! ### Cutting the printed form -/

theorem splitOn_render {query : Query} (hclauses : query.clauses ≠ [])
    (hjoin : ∀ clause ∈ query.clauses, ',' ∉ clause.render.toList) :
    query.render.toList.splitOn ',' = query.clauses.map fun clause => clause.render.toList := by
  rw [toList_render, List.splitOn_intercalate]
  · rwa [List.forall_mem_map]
  · exact mt List.map_eq_nil_iff.1 hclauses

section Clause

variable {clause : Clause} (hnames : ∀ name ∈ clause.names, IsPiece name.toList)

include hnames

theorem assign_not_mem_pathText : '=' ∉ clause.pathText.toList := by
  apply not_mem_pathText (by decide)
  intro name hname
  exact (hnames name (List.mem_append_left _ hname)).not_mem rfl

theorem clauseOf_render (hpath : clause.path ≠ []) :
    clauseOf clause.render.toList = clause.mapNames (nameOf ∘ String.toList) := by
  rw [toList_render_clause, clauseOf_append (assign_not_mem_pathText hnames), toList_pathText, List.splitOn_intercalate,
    List.map_map, Clause.mapNames, Function.comp_apply]
  · rw [List.forall_mem_map]
    intro name hname
    exact (hnames name (List.mem_append_left _ hname)).not_mem rfl
  · exact mt List.map_eq_nil_iff.1 hpath

theorem isClause_render : IsClause clause.render.toList := by
  have hkey := hnames clause.key (List.mem_append_right _ List.mem_cons_self)
  rw [toList_render_clause, isClause_append_iff (assign_not_mem_pathText hnames)]
  exact ⟨hkey.not_mem rfl, hkey.not_mem rfl⟩

theorem keyPart_render : keyPart clause.render.toList = clause.key.toList := by
  rw [toList_render_clause, keyPart_append (assign_not_mem_pathText hnames)]

end Clause

section Query

variable {query : Query} (hquery : query.IsComplete) (hnames : ∀ name ∈ query.names, IsPiece name.toList)

include hquery hnames

theorem splitOn_render_of_isPiece :
    query.render.toList.splitOn ',' = query.clauses.map fun clause => clause.render.toList := by
  apply splitOn_render hquery.clauses_ne_nil
  intro clause hclause
  rw [not_mem_render_clause_iff]
  intro name hname
  exact (forall_mem_names.1 hnames clause hclause name hname).not_mem rfl

/-- Cutting the printed form gives back the clauses with their names as a text would write them. -/
theorem cut_render : cut query.render.toList = query.mapNames (nameOf ∘ String.toList) := by
  rw [cut, splitOn_render_of_isPiece hquery hnames, List.map_map, mapNames, Query.mk.injEq]
  apply List.map_congr_left
  intro clause hclause
  exact clauseOf_render (forall_mem_names.1 hnames clause hclause) (hquery.path_ne_nil clause hclause)

theorem isQuery_render (hkey : ∀ clause ∈ query.clauses.getLast?, ∃ c ∈ clause.key.toList, Text.isBlank c = false) :
    IsQuery query.render.toList := by
  have hclauses := forall_mem_names.1 hnames
  have hlast := List.getLast_mem hquery.clauses_ne_nil
  constructor
  · rw [splitOn_render_of_isPiece hquery hnames, List.forall_mem_map]
    exact fun clause hclause => isClause_render (hclauses clause hclause)
  · simp only [lastKey, splitOn_render_of_isPiece hquery hnames, List.getLast_map]
    rw [keyPart_render (hclauses _ hlast)]
    exact hkey _ (List.getLast?_eq_some_getLast hquery.clauses_ne_nil)

end Query

/-! ### Names that come back -/

def StartsNotBlank (name : String) : Prop :=
  ∀ c ∈ name.toList.head?, Text.isBlank c = false

theorem nameOf_of_startsNotBlank {name : String} (hstart : StartsNotBlank name) :
    nameOf name.toList = Escape.decode name := by
  have hdrop : name.toList.dropWhile Text.isBlank = name.toList := by
    rw [StartsNotBlank] at hstart
    cases htext : name.toList with
    | nil => rfl
    | cons c rest =>
      rw [htext] at hstart
      rw [List.dropWhile_cons_of_neg]
      simp [hstart c rfl]
  rw [nameOf, hdrop, String.ofList_toList]

/-- A name that is read as itself does not begin with a blank, since it would come back shorter. -/
theorem startsNotBlank_of_nameOf_eq {name : String} (hname : nameOf name.toList = name) : StartsNotBlank name := by
  intro c hc
  by_contra hnot
  rw [Bool.not_eq_false] at hnot
  cases htext : name.toList with
  | nil => simp [htext] at hc
  | cons first rest =>
    rw [htext] at hc
    obtain rfl : first = c := Option.some.inj hc
    have hlength := Escape.length_decode_le (String.ofList (name.toList.dropWhile Text.isBlank))
    have hdrop := (List.dropWhile_suffix Text.isBlank (l := rest)).length_le
    rw [← nameOf, hname, htext, List.dropWhile_cons_of_pos hnot, String.toList_ofList, List.length_cons] at hlength
    omega

theorem exists_not_blank {name : String} (hname : name ≠ "") (hstart : StartsNotBlank name) :
    ∃ c ∈ name.toList, Text.isBlank c = false := by
  have hne := mt String.toList_eq_nil_iff.1 hname
  exact ⟨_, List.head_mem hne, hstart _ (List.head?_eq_some_head hne)⟩

/-- A printed query is read with its names decoded, if they have nothing in them that is not part of a name. -/
theorem ofString_render {query : Query} (hquery : query.IsComplete)
    (hpieces : ∀ name ∈ query.names, IsPiece name.toList) (hstarts : ∀ name ∈ query.names, StartsNotBlank name) :
    ofString query.render = .ok (query.mapNames Escape.decode) := by
  have hdecode : query.mapNames (nameOf ∘ String.toList) = query.mapNames Escape.decode := by
    rw [mapNames_eq_iff]
    intro name hname
    rw [Function.comp_apply, nameOf_of_startsNotBlank (hstarts name hname)]
  rw [ofString_eq_ok_iff, cut_render hquery hpieces, hdecode]
  refine ⟨isQuery_render hquery hpieces ?_, rfl⟩
  intro clause hclause
  have hmem := key_mem_names (List.mem_of_getLast? hclause)
  exact exists_not_blank (hquery.last_key_ne_empty clause hclause) (hstarts clause.key hmem)

/-! ### Encoded names -/

theorem startsNotBlank_encode {name : String} (hname : IsName name) : StartsNotBlank (Escape.encode name) := by
  intro c hc
  rw [← Bool.not_eq_true]
  intro hblank
  rcases Escape.head?_encode hc with hhead | ⟨entry, hentry, hform⟩
  · obtain rfl := hname.blank_start c hhead hblank
    exact Escape.reserved_not_mem_encode name ' ' (by decide) (List.mem_of_mem_head? hc)
  · have hnot : ∀ entry ∈ Escape.table, entry.2.toList.all fun c => !Text.isBlank c := by decide
    have hc := List.all_eq_true.1 (hnot entry hentry) c hform
    rw [hblank] at hc
    cases hc

theorem isPiece_encode {name : String} (hname : IsName name) : IsPiece (Escape.encode name).toList := by
  have hfree := Escape.reserved_not_mem_encode name
  refine isPiece_of_not_mem (hfree ',' (by decide)) ?_ (hfree '=' (by decide))
  intro hmem
  rcases Escape.mem_of_mem_encode hmem with htext | ⟨entry, hentry, hform⟩
  · exact hname.no_separator htext
  · have hnot : ∀ entry ∈ Escape.table, '.' ∉ entry.2.toList := by decide
    exact hnot entry hentry hform

theorem ofString_render_encode {query : Query} (hquery : query.IsComplete)
    (hnames : ∀ name ∈ query.names, IsName name) : ofString (query.mapNames Escape.encode).render = .ok query := by
  have hcomplete : (query.mapNames Escape.encode).IsComplete :=
    isComplete_mapNames (fun _ hname => Escape.encode_ne_empty hname) hquery
  have hpieces : ∀ name ∈ (query.mapNames Escape.encode).names, IsPiece name.toList := by
    rw [names_mapNames, List.forall_mem_map]
    exact fun name hname => isPiece_encode (hnames name hname)
  have hstarts : ∀ name ∈ (query.mapNames Escape.encode).names, StartsNotBlank name := by
    rw [names_mapNames, List.forall_mem_map]
    exact fun name hname => startsNotBlank_encode (hnames name hname)
  rw [ofString_render hcomplete hpieces hstarts, mapNames_mapNames, Except.ok.injEq, mapNames_eq_self_iff]
  intro name hname
  rw [Function.comp_apply, Escape.decode_encode, Escape.decode_of_noForm (hnames name hname).no_form]

/-- With its names encoded, a query is read again exactly if it is complete and its names are such as come out of a
text. -/
theorem ofString_render_encode_eq_ok_iff (query : Query) :
    ofString (query.mapNames Escape.encode).render = .ok query ↔
      query.IsComplete ∧ ∀ name ∈ query.names, IsName name := by
  constructor
  · exact readable_of_ofString
  · rintro ⟨hquery, hnames⟩
    exact ofString_render_encode hquery hnames

/-- The queries that are read from texts are the complete ones whose names are such as come out of a text. Whatever text
a query has been read from, its printed form with the names encoded is another one. -/
theorem exists_ofString_eq_ok_iff (query : Query) :
    ((∃ text, ofString text = .ok query) ↔ query.IsComplete ∧ ∀ name ∈ query.names, IsName name) ∧
      ∀ text, ofString text = .ok query → ofString (query.mapNames Escape.encode).render = .ok query := by
  have hagain : ∀ text, ofString text = .ok query → ofString (query.mapNames Escape.encode).render = .ok query := by
    intro text hread
    obtain ⟨hquery, hnames⟩ := readable_of_ofString hread
    exact ofString_render_encode hquery hnames
  refine ⟨⟨?_, ?_⟩, hagain⟩
  · rintro ⟨text, hread⟩
    exact readable_of_ofString hread
  · rintro ⟨hquery, hnames⟩
    exact ⟨_, ofString_render_encode hquery hnames⟩

/-- The text that is printed is another one: blanks before names are dropped, and every space is written in its form. -/
theorem exists_ofString_eq_ok_iff_blanks :
    ofString "\t%20a..b =,c= x%5C%3Dy " = .ok ⟨[⟨[" a", "", "b "], ""⟩, ⟨["c"], "x=y "⟩]⟩ ∧
      ofString ((⟨[⟨[" a", "", "b "], ""⟩, ⟨["c"], "x=y "⟩]⟩ : Query).mapNames Escape.encode).render =
        .ok ⟨[⟨[" a", "", "b "], ""⟩, ⟨["c"], "x=y "⟩]⟩ := by
  have hread : ofString "\t%20a..b =,c= x%5C%3Dy " = .ok ⟨[⟨[" a", "", "b "], ""⟩, ⟨["c"], "x=y "⟩]⟩ :=
    (ofString_eq_ok_iff _ _).2 (by decide)
  exact ⟨hread, (exists_ofString_eq_ok_iff _).2 _ hread⟩

/-! ### Names as they are -/

/-- A name that a text writes as it is. -/
structure IsPlainName (name : String) : Prop where
  no_separator : '.' ∉ name.toList
  no_join : ',' ∉ name.toList
  no_assign : '=' ∉ name.toList
  no_form : Escape.NoForm name
  no_blank_start : ∀ c ∈ name.toList.head?, Text.isBlank c = false

theorem not_mem_render_of_ofString {query : Query} (hread : ofString query.render = .ok query) :
    ∀ clause ∈ query.clauses, ',' ∉ clause.render.toList := by
  obtain ⟨_, hcut⟩ := (ofString_eq_ok_iff query.render query).1 hread
  have hlength : query.clauses.length = query.render.toList.count ',' + 1 :=
    calc
      query.clauses.length = (cut query.render.toList).clauses.length := by rw [← hcut]
      _ = query.render.toList.count ',' + 1 := by rw [cut, List.length_map, length_splitOn]
  have hpos := List.length_pos_iff.2 (readable_of_ofString hread).1.clauses_ne_nil
  rw [toList_render, count_intercalate, if_pos rfl, List.length_map] at hlength
  have hsum : ((query.clauses.map fun clause => clause.render.toList).map (List.count ',')).sum = 0 := by omega
  rw [List.sum_eq_zero_iff_forall_eq_nat, List.forall_mem_map, List.forall_mem_map] at hsum
  exact fun clause hclause => List.count_eq_zero.1 (hsum clause hclause)

theorem isPlainName_of_ofString {query : Query} (hread : ofString query.render = .ok query) :
    ∀ name ∈ query.names, IsPlainName name := by
  obtain ⟨hquery, hcut⟩ := (ofString_eq_ok_iff query.render query).1 hread
  obtain ⟨hcomplete, hnames⟩ := readable_of_ofString hread
  have hrender := not_mem_render_of_ofString hread
  have hjoin : ∀ name ∈ query.names, ',' ∉ name.toList := by
    rw [forall_mem_names]
    exact fun clause hclause => (not_mem_render_clause_iff clause).1 (hrender clause hclause)
  have hassign : ∀ name ∈ query.names, '=' ∉ name.toList := by
    rw [forall_mem_names]
    intro clause hclause
    have hpart : clause.render.toList ∈ query.render.toList.splitOn ',' := by
      rw [splitOn_render hcomplete.clauses_ne_nil hrender]
      exact List.mem_map_of_mem hclause
    exact (count_assign_eq_one_iff clause).1 (hquery.1 _ hpart).1
  have hpieces : ∀ name ∈ query.names, IsPiece name.toList := fun name hname =>
    isPiece_of_not_mem (hjoin name hname) (hnames name hname).no_separator (hassign name hname)
  rw [cut_render hcomplete hpieces, eq_comm, mapNames_eq_self_iff] at hcut
  intro name hname
  have hback := hcut name hname
  rw [Function.comp_apply] at hback
  exact
    { no_separator := (hnames name hname).no_separator
      no_join := hjoin name hname
      no_assign := hassign name hname
      no_form := (hnames name hname).no_form
      no_blank_start := startsNotBlank_of_nameOf_eq hback }

/-- Printed as it is, a query is read again exactly if it is complete and its names are plain. -/
theorem ofString_render_eq_ok_iff (query : Query) :
    ofString query.render = .ok query ↔ query.IsComplete ∧ ∀ name ∈ query.names, IsPlainName name := by
  constructor
  · intro hread
    exact ⟨(readable_of_ofString hread).1, isPlainName_of_ofString hread⟩
  · rintro ⟨hquery, hnames⟩
    have hpieces : ∀ name ∈ query.names, IsPiece name.toList := by
      intro name hname
      have hplain := hnames name hname
      exact isPiece_of_not_mem hplain.no_join hplain.no_separator hplain.no_assign
    have hstarts : ∀ name ∈ query.names, StartsNotBlank name := fun name hname => (hnames name hname).no_blank_start
    rw [ofString_render hquery hpieces hstarts, Except.ok.injEq, mapNames_eq_self_iff]
    intro name hname
    exact Escape.decode_of_noForm (hnames name hname).no_form

end Pluck.Query
