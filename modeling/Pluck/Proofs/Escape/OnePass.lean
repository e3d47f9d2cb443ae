import Pluck.Proofs.Escape.Decoding

/-!
# One pass from left to right

Encoding and decoding go through a text once for each entry of the table. What they give can be said in one pass:
`readForms` takes a form wherever one begins and goes on behind it, and `writeChar` writes each character on its own,
whatever stands beside it. As no entry gets in another one's way, the order of the entries does not matter
(`decode_encode_one_pass`).
-/

namespace Pluck.Escape

/-- Reads a written name. A form is taken as a whole, and every other character by itself. -/
def readForms : List Char → List Char
  | [] => []
  | '%' :: '5' :: 'C' :: '%' :: '2' :: 'C' :: rest => ',' :: readForms rest
  | '%' :: '2' :: '0' :: rest => ' ' :: readForms rest
  | '%' :: '5' :: 'C' :: '%' :: '3' :: 'D' :: rest => '=' :: readForms rest
  | c :: rest => c :: readForms rest

/-- Writes one character of a name. -/
def writeChar : Char → List Char
  | ',' => ['%', '5', 'C', '%', '2', 'C']
  | ' ' => ['%', '2', '0']
  | '=' => ['%', '5', 'C', '%', '3', 'D']
  | c => [c]

section Pairs

variable {P : List Char × List Char → Prop}

theorem forall_mem_decoding :
    (∀ pair ∈ decoding, P pair) ↔
      P (['%', '5', 'C', '%', '2', 'C'], [',']) ∧ P (['%', '2', '0'], [' ']) ∧
        P (['%', '5', 'C', '%', '3', 'D'], ['=']) := by
  have hpairs : decoding = [(['%', '5', 'C', '%', '2', 'C'], [',']), (['%', '2', '0'], [' ']),
      (['%', '5', 'C', '%', '3', 'D'], ['='])] := rfl
  rw [hpairs, List.forall_mem_cons, List.forall_mem_cons, List.forall_mem_singleton]

theorem forall_mem_encoding :
    (∀ pair ∈ encoding, P pair) ↔
      P ([','], ['%', '5', 'C', '%', '2', 'C']) ∧ P ([' '], ['%', '2', '0']) ∧
        P (['='], ['%', '5', 'C', '%', '3', 'D']) := by
  have hpairs : encoding = [([','], ['%', '5', 'C', '%', '2', 'C']), ([' '], ['%', '2', '0']),
      (['='], ['%', '5', 'C', '%', '3', 'D'])] := rfl
  rw [hpairs, List.forall_mem_cons, List.forall_mem_cons, List.forall_mem_singleton]

end Pairs

theorem not_prefix_cons {c d : Char} {inner rest : List Char} (hrest : ∀ later, c = d → rest = inner ++ later → False) :
    ¬d :: inner <+: c :: rest := by
  rintro ⟨later, hlater⟩
  obtain ⟨hc, hinner⟩ := List.cons.inj hlater
  exact hrest later hc.symm hinner.symm

theorem replaceEach_decoding (text : List Char) : replaceEach decoding text = readForms text := by
  have hform : ∀ pair ∈ decoding, ∀ rest,
      replaceEach decoding (pair.1 ++ rest) = pair.2 ++ replaceEach decoding rest :=
    fun pair hpair rest => replaceEach_append separate_decoding hpair rest
  rw [forall_mem_decoding] at hform
  obtain ⟨hcomma, hblank, hequals⟩ := hform
  fun_induction readForms text with
  | case1 => exact replaceEach_nil decoding
  | case2 rest ih =>
    rw [← ih]
    exact hcomma rest
  | case3 rest ih =>
    rw [← ih]
    exact hblank rest
  | case4 rest ih =>
    rw [← ih]
    exact hequals rest
  | case5 c rest hnotComma hnotBlank hnotEquals ih =>
    rw [replaceEach_cons separate_decoding, ih]
    rw [forall_mem_decoding]
    exact ⟨not_prefix_cons hnotComma, not_prefix_cons hnotBlank, not_prefix_cons hnotEquals⟩

theorem replaceEach_encoding_cons (c : Char) (rest : List Char) :
    replaceEach encoding (c :: rest) = writeChar c ++ replaceEach encoding rest := by
  have hold : ∀ pair ∈ encoding, replaceEach encoding (pair.1 ++ rest) = pair.2 ++ replaceEach encoding rest :=
    fun pair hpair => replaceEach_append separate_encoding hpair rest
  rw [forall_mem_encoding] at hold
  obtain ⟨hcomma, hblank, hequals⟩ := hold
  unfold writeChar
  split
  · exact hcomma
  · exact hblank
  · exact hequals
  next hnotComma hnotBlank hnotEquals =>
    refine replaceEach_cons separate_encoding ?_
    rw [forall_mem_encoding]
    exact ⟨not_prefix_cons fun _ hc _ => hnotComma hc, not_prefix_cons fun _ hc _ => hnotBlank hc,
      not_prefix_cons fun _ hc _ => hnotEquals hc⟩

theorem replaceEach_encoding (name : List Char) : replaceEach encoding name = name.flatMap writeChar := by
  induction name with
  | nil => exact replaceEach_nil encoding
  | cons c rest ih => rw [replaceEach_encoding_cons, ih, List.flatMap_cons]

/-- Both go through a text as if once: decoding takes the forms as they come, encoding takes the characters one by one. In
whatever order the entries of the table are taken, the result is the same. -/
theorem decode_encode_one_pass (text : String) :
    (decode text).toList = readForms text.toList ∧
    (encode text).toList = text.toList.flatMap writeChar ∧
    ∀ entries : List (String × String), entries.Perm table →
      entries.foldl (fun text (literal, form) => replaceAll form literal text) text = decode text ∧
      entries.foldl (fun text (literal, form) => replaceAll literal form text) text = encode text := by
  refine ⟨?_, ?_, fun entries hentries => ⟨?_, ?_⟩⟩
  · rw [toList_decode, replaceEach_decoding]
  · rw [toList_encode, replaceEach_encoding]
  · apply String.toList_injective
    rw [toList_foldl_replaceAll entries Prod.snd Prod.fst, toList_decode]
    exact replaceEach_perm separate_decoding (hentries.map _) text.toList
  · apply String.toList_injective
    rw [toList_foldl_replaceAll entries Prod.fst Prod.snd, toList_encode]
    exact replaceEach_perm separate_encoding (hentries.map _) text.toList

/-- The entries from the last to the first. A form that only comes about when a space has been read is not one. -/
theorem decode_encode_one_pass_reversed :
    table.reverse.Perm table ∧
      table.reverse.foldl (fun text (literal, form) => replaceAll form literal text) "%5C%3%20D%5C%2C" =
        decode "%5C%3%20D%5C%2C" ∧
      decode "%5C%3%20D%5C%2C" = "%5C%3 D," := by
  obtain ⟨hread, _, hentries⟩ := decode_encode_one_pass "%5C%3%20D%5C%2C"
  refine ⟨table.reverse_perm, (hentries _ table.reverse_perm).1, String.toList_injective ?_⟩
  exact hread

end Pluck.Escape
