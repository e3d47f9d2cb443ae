import Pluck.Proofs.Escape.Decoding
import Pluck.Proofs.Query.Cutting

/-!
# The names in a query

A query is read with names of its own kind. A full stop always cuts, so that no name has one; a name is decoded, so that
no escaped form is left in it; and a name begins with a blank only if that was escaped, which is possible for a space.
`readable_of_ofString` puts this together with what the text of a query always has: a clause, a name in each path and a
last key that is not empty.
-/

namespace Pluck

def Clause.names (clause : Clause) : List String :=
  clause.path ++ [clause.key]

def Clause.mapNames (f : String → String) (clause : Clause) : Clause :=
  ⟨clause.path.map f, f clause.key⟩

namespace Query

def names (query : Query) : List String :=
  query.clauses.flatMap Clause.names

/-- The query with every name of a path and every key replaced. -/
def mapNames (f : String → String) (query : Query) : Query :=
  ⟨query.clauses.map (Clause.mapNames f)⟩

theorem mem_names {query : Query} {name : String} :
    name ∈ query.names ↔ ∃ clause ∈ query.clauses, name ∈ clause.names :=
  List.mem_flatMap

theorem forall_mem_names {query : Query} {P : String → Prop} :
    (∀ name ∈ query.names, P name) ↔ ∀ clause ∈ query.clauses, ∀ name ∈ clause.names, P name :=
  List.forall_mem_flatMap

theorem key_mem_names {query : Query} {clause : Clause} (hclause : clause ∈ query.clauses) :
    clause.key ∈ query.names :=
  mem_names.2 ⟨clause, hclause, List.mem_append_right _ List.mem_cons_self⟩

theorem clause_mapNames_eq_iff (f g : String → String) (clause : Clause) :
    clause.mapNames f = clause.mapNames g ↔ ∀ name ∈ clause.names, f name = g name := by
  rw [Clause.mapNames, Clause.mapNames, Clause.mk.injEq, List.map_inj_left, Clause.names, List.forall_mem_append,
    List.forall_mem_singleton]

theorem mapNames_eq_iff (f g : String → String) (query : Query) :
    query.mapNames f = query.mapNames g ↔ ∀ name ∈ query.names, f name = g name := by
  rw [mapNames, mapNames, Query.mk.injEq, List.map_inj_left, forall_mem_names]
  exact forall₂_congr fun clause _ => clause_mapNames_eq_iff f g clause

theorem mapNames_id (query : Query) : query.mapNames id = query := by
  have hclause : Clause.mapNames id = id := by
    funext clause
    rw [Clause.mapNames, List.map_id]
    rfl
  rw [mapNames, hclause, List.map_id]

theorem mapNames_eq_self_iff (f : String → String) (query : Query) :
    query.mapNames f = query ↔ ∀ name ∈ query.names, f name = name := by
  have hmap := mapNames_eq_iff f id query
  rwa [mapNames_id] at hmap

theorem names_mapNames (f : String → String) (query : Query) : (query.mapNames f).names = query.names.map f := by
  simp [names, mapNames, Clause.names, Clause.mapNames, List.flatMap_map, List.map_flatMap]

theorem mapNames_mapNames (f g : String → String) (query : Query) :
    (query.mapNames g).mapNames f = query.mapNames (f ∘ g) := by
  simp [mapNames, Clause.mapNames, Function.comp_def]

/-- A name as it can come out of a text. -/
structure IsName (name : String) : Prop where
  no_separator : '.' ∉ name.toList
  no_form : Escape.NoForm name
  /-- The only blank at the start of a name is a space. -/
  blank_start : ∀ c ∈ name.toList.head?, Text.isBlank c → c = ' '

/-- There is a clause, every path has a name, and the last key is not empty. -/
structure IsComplete (query : Query) : Prop where
  clauses_ne_nil : query.clauses ≠ []
  path_ne_nil : ∀ clause ∈ query.clauses, clause.path ≠ []
  last_key_ne_empty : ∀ clause ∈ query.clauses.getLast?, clause.key ≠ ""

theorem isComplete_mapNames {f : String → String} (hf : ∀ name, name ≠ "" → f name ≠ "") {query : Query}
    (hquery : query.IsComplete) : (query.mapNames f).IsComplete where
  clauses_ne_nil := mt List.map_eq_nil_iff.1 hquery.clauses_ne_nil
  path_ne_nil := by
    intro clause hclause
    obtain ⟨before, hbefore, rfl⟩ := List.mem_map.1 hclause
    exact mt List.map_eq_nil_iff.1 (hquery.path_ne_nil before hbefore)
  last_key_ne_empty := by
    intro clause hclause
    rw [mapNames, List.getLast?_map] at hclause
    obtain ⟨before, hbefore, rfl⟩ := Option.map_eq_some_iff.1 hclause
    exact hf before.key (hquery.last_key_ne_empty before hbefore)

theorem isName_nameOf {piece : List Char} (hseparator : '.' ∉ piece) : IsName (nameOf piece) where
  no_separator := by
    intro hmem
    rcases Escape.mem_of_mem_decode hmem with htext | hliteral
    · rw [String.toList_ofList] at htext
      exact hseparator ((List.dropWhile_suffix _).subset htext)
    · exact absurd (Escape.eq_of_mem_literal hliteral) (by decide)
  no_form := Escape.noForm_decode _
  blank_start := by
    intro c hc hblank
    rcases Escape.head?_decode hc with hhead | hliteral
    · rw [String.toList_ofList] at hhead
      exact absurd hblank (by simp [Text.head?_dropWhile_eq_false _ _ c hhead])
    · rcases Escape.eq_of_mem_literal hliteral with rfl | rfl | rfl
      · exact absurd hblank (by decide)
      · rfl
      · exact absurd hblank (by decide)

theorem nameOf_ne_empty {piece : List Char} (hpiece : ∃ c ∈ piece, Text.isBlank c = false) : nameOf piece ≠ "" := by
  apply Escape.decode_ne_empty
  rw [ne_eq, ← String.toList_eq_nil_iff, String.toList_ofList, dropWhile_isBlank_eq_nil_iff, not_not]
  exact hpiece

theorem isComplete_cut {text : List Char} (hquery : IsQuery text) : (cut text).IsComplete where
  clauses_ne_nil := mt List.map_eq_nil_iff.1 (List.splitOn_ne_nil ',' text)
  path_ne_nil := by
    intro clause hclause
    obtain ⟨part, _, rfl⟩ := List.mem_map.1 hclause
    exact mt List.map_eq_nil_iff.1 (List.splitOn_ne_nil '.' (pathPart part))
  last_key_ne_empty := by
    intro clause hclause
    rw [cut, List.getLast?_map, List.getLast?_eq_some_getLast (List.splitOn_ne_nil ',' text)] at hclause
    cases hclause
    exact nameOf_ne_empty hquery.2

theorem isName_of_mem_names_cut {text : List Char} (hquery : IsQuery text) {name : String}
    (hname : name ∈ (cut text).names) : IsName name := by
  obtain ⟨clause, hclause, hmem⟩ := mem_names.1 hname
  obtain ⟨part, hpart, rfl⟩ := List.mem_map.1 hclause
  rcases List.mem_append.1 hmem with hpath | hkey
  · obtain ⟨piece, hpiece, rfl⟩ := List.mem_map.1 hpath
    exact isName_nameOf (not_mem_of_mem_splitOn hpiece)
  · rw [List.mem_singleton.1 hkey]
    exact isName_nameOf (hquery.1 part hpart).2

/-- What is read from a text is complete, with names that can come out of a text. -/
theorem readable_of_ofString {text : String} {query : Query} (hread : ofString text = .ok query) :
    query.IsComplete ∧ ∀ name ∈ query.names, IsName name := by
  obtain ⟨hquery, rfl⟩ := (ofString_eq_ok_iff text query).1 hread
  exact ⟨isComplete_cut hquery, fun name hname => isName_of_mem_names_cut hquery hname⟩

end Query

end Pluck
