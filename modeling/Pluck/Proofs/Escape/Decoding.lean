import Pluck.Proofs.Escape.Replacing

/-!
# What encoding and decoding do

Both are replacements of the kind of `Escape.Replacing`, one with the pairs of the table and one with these pairs
swapped. What decoding leaves has no form, a text without a form is its own decoding (`decode_of_noForm`), and encoding
makes no difference to what is decoded (`decode_encode`). `decode_settles` puts this together, and `encode_settles` does
it for encoding, which leaves no reserved character. Two texts have the same decoding exactly if they have the same
encoding (`decode_eq_iff_encode_eq`).
-/

namespace Pluck.Escape

/-! ### The pairs of the table -/

def encoding : List (List Char × List Char) :=
  table.map fun entry => (entry.1.toList, entry.2.toList)

def decoding : List (List Char × List Char) :=
  table.map fun entry => (entry.2.toList, entry.1.toList)

theorem swapped_encoding : swapped encoding = decoding :=
  rfl

theorem swapped_decoding : swapped decoding = encoding :=
  rfl

theorem forall_disjoint_of_all {pairs : List (List Char × List Char)}
    (hall : pairs.all fun pair => pairs.all fun other => pair.2.all fun c => !other.1.contains c) :
    ∀ pair ∈ pairs, ∀ other ∈ pairs, ∀ c ∈ pair.2, c ∉ other.1 := by
  intro pair hpair other hother c hc hmem
  have hnot := List.all_eq_true.1 (List.all_eq_true.1 (List.all_eq_true.1 hall pair hpair) other hother) c hc
  rw [List.contains_iff_mem.2 hmem] at hnot
  cases hnot

theorem separate_encoding : Separate encoding where
  old_ne_nil := by decide
  new_ne_nil := by decide
  disjoint := forall_disjoint_of_all (by decide)
  apart := by decide

theorem separate_decoding : Separate decoding where
  old_ne_nil := by decide
  new_ne_nil := by decide
  disjoint := forall_disjoint_of_all (by decide)
  apart := by decide

theorem toList_foldl_replaceAll {α : Type} (entries : List α) (old new : α → String) (text : String) :
    (entries.foldl (fun text entry => replaceAll (old entry) (new entry) text) text).toList =
      replaceEach (entries.map fun entry => ((old entry).toList, (new entry).toList)) text.toList := by
  induction entries generalizing text with
  | nil => rfl
  | cons entry entries ih =>
    rw [List.foldl_cons, ih, List.map_cons, replaceEach_cons_pair, replaceAll, String.toList_ofList]

theorem toList_encode (name : String) : (encode name).toList = replaceEach encoding name.toList :=
  toList_foldl_replaceAll table Prod.fst Prod.snd name

theorem toList_decode (text : String) : (decode text).toList = replaceEach decoding text.toList :=
  toList_foldl_replaceAll table Prod.snd Prod.fst text

theorem eq_of_mem_literal {c : Char} (hc : ∃ entry ∈ table, c ∈ entry.1.toList) : c = ',' ∨ c = ' ' ∨ c = '=' := by
  obtain ⟨entry, hentry, hmem⟩ := hc
  simp only [table, List.mem_cons, List.not_mem_nil, or_false] at hentry
  rcases hentry with rfl | rfl | rfl
  · exact .inl (List.mem_singleton.1 hmem)
  · exact .inr (.inl (List.mem_singleton.1 hmem))
  · exact .inr (.inr (List.mem_singleton.1 hmem))

/-! ### Decoding -/

/-- No escaped form is in the text. -/
def NoForm (text : String) : Prop :=
  ∀ entry ∈ table, ¬entry.2.toList <:+: text.toList

theorem noForm_iff (text : String) : NoForm text ↔ ∀ pair ∈ decoding, ¬pair.1 <:+: text.toList := by
  rw [decoding, List.forall_mem_map]
  rfl

/-- The forms of the table, spelled out. -/
theorem noForm_iff_forms (text : String) :
    NoForm text ↔ ∀ form ∈ ["%5C%2C", "%20", "%5C%3D"], ¬form.toList <:+: text.toList := by
  have hforms : ["%5C%2C", "%20", "%5C%3D"] = table.map Prod.snd := rfl
  rw [hforms, List.forall_mem_map]
  rfl

theorem noForm_decode (text : String) : NoForm (decode text) := by
  rw [noForm_iff, toList_decode]
  exact fun pair hpair => not_infix_replaceEach separate_decoding hpair text.toList

theorem decode_of_noForm {text : String} (htext : NoForm text) : decode text = text := by
  apply String.toList_injective
  rw [toList_decode]
  exact replaceEach_of_not_infix separate_decoding ((noForm_iff text).1 htext)

theorem decode_encode (name : String) : decode (encode name) = decode name := by
  apply String.toList_injective
  rw [toList_decode, toList_decode, toList_encode, ← swapped_encoding]
  exact replaceEach_swapped_replaceEach separate_encoding separate_decoding name.toList

/-- No form is left by decoding, and none comes about. So decoding twice is decoding once, and the texts that are their
own decoding, whether or not they are encoded before, are those without a form. -/
theorem decode_settles (text : String) :
    decode (encode text) = decode text ∧
    (decode text = text ↔ ∀ form ∈ ["%5C%2C", "%20", "%5C%3D"], ¬form.toList <:+: text.toList) ∧
    (decode (encode text) = text ↔ ∀ form ∈ ["%5C%2C", "%20", "%5C%3D"], ¬form.toList <:+: text.toList) ∧
    decode (decode text) = decode text ∧
    ∀ form ∈ ["%5C%2C", "%20", "%5C%3D"], ¬form.toList <:+: (decode text).toList := by
  have hself : decode text = text ↔ NoForm text := by
    constructor
    · intro hsame
      rw [← hsame]
      exact noForm_decode text
    · exact decode_of_noForm
  simp only [← noForm_iff_forms]
  refine ⟨decode_encode text, hself, ?_, ?_, noForm_decode text⟩
  · rw [decode_encode]
    exact hself
  · exact decode_of_noForm (noForm_decode text)

theorem exists_entry_of_mem_decoding {c : Char} (hc : ∃ pair ∈ decoding, c ∈ pair.2) :
    ∃ entry ∈ table, c ∈ entry.1.toList := by
  obtain ⟨pair, hpair, hmem⟩ := hc
  obtain ⟨entry, hentry, rfl⟩ := List.mem_map.1 hpair
  exact ⟨entry, hentry, hmem⟩

/-- Decoding adds no other characters than the reserved ones. -/
theorem mem_of_mem_decode {text : String} {c : Char} (hc : c ∈ (decode text).toList) :
    c ∈ text.toList ∨ ∃ entry ∈ table, c ∈ entry.1.toList := by
  rw [toList_decode] at hc
  exact (mem_of_mem_replaceEach separate_decoding hc).imp_right exists_entry_of_mem_decoding

theorem head?_decode {text : String} {c : Char} (hc : (decode text).toList.head? = some c) :
    text.toList.head? = some c ∨ ∃ entry ∈ table, c ∈ entry.1.toList := by
  rw [toList_decode] at hc
  exact (head?_replaceEach separate_decoding hc).imp_right exists_entry_of_mem_decoding

theorem decode_ne_empty {text : String} (htext : text ≠ "") : decode text ≠ "" := by
  intro hempty
  apply replaceEach_ne_nil separate_decoding (mt String.toList_eq_nil_iff.1 htext)
  rw [← toList_decode, hempty]
  rfl

theorem length_decode_le (text : String) : (decode text).toList.length ≤ text.toList.length := by
  rw [toList_decode]
  exact length_replaceEach_le separate_decoding (by decide) text.toList

/-! ### Encoding -/

theorem exists_entry_of_mem_encoding {c : Char} (hc : ∃ pair ∈ encoding, c ∈ pair.2) :
    ∃ entry ∈ table, c ∈ entry.2.toList := by
  obtain ⟨pair, hpair, hmem⟩ := hc
  obtain ⟨entry, hentry, rfl⟩ := List.mem_map.1 hpair
  exact ⟨entry, hentry, hmem⟩

theorem mem_of_mem_encode {name : String} {c : Char} (hc : c ∈ (encode name).toList) :
    c ∈ name.toList ∨ ∃ entry ∈ table, c ∈ entry.2.toList := by
  rw [toList_encode] at hc
  exact (mem_of_mem_replaceEach separate_encoding hc).imp_right exists_entry_of_mem_encoding

theorem head?_encode {name : String} {c : Char} (hc : (encode name).toList.head? = some c) :
    name.toList.head? = some c ∨ ∃ entry ∈ table, c ∈ entry.2.toList := by
  rw [toList_encode] at hc
  exact (head?_replaceEach separate_encoding hc).imp_right exists_entry_of_mem_encoding

theorem encode_decode (text : String) : encode (decode text) = encode text := by
  apply String.toList_injective
  rw [toList_encode, toList_encode, toList_decode, ← swapped_decoding]
  exact replaceEach_swapped_replaceEach separate_decoding separate_encoding text.toList

/-- The reserved characters of the table, spelled out. -/
theorem forall_encoding_iff (text : String) :
    (∀ pair ∈ encoding, ¬pair.1 <:+: text.toList) ↔ ∀ c ∈ [',', ' ', '='], c ∉ text.toList := by
  have hold : encoding.map Prod.fst = [',', ' ', '='].map fun c => [c] := rfl
  rw [← List.forall_mem_map (P := fun old => ¬old <:+: text.toList), hold, List.forall_mem_map]
  simp only [List.singleton_infix_iff]

/-- Nothing of a reserved character is left when a name has been encoded. -/
theorem reserved_not_mem_encode (name : String) : ∀ c ∈ [',', ' ', '='], c ∉ (encode name).toList := by
  rw [← forall_encoding_iff, toList_encode]
  exact fun pair hpair => not_infix_replaceEach separate_encoding hpair name.toList

theorem encode_of_no_reserved {name : String} (hname : ∀ c ∈ [',', ' ', '='], c ∉ name.toList) :
    encode name = name := by
  apply String.toList_injective
  rw [toList_encode]
  exact replaceEach_of_not_infix separate_encoding ((forall_encoding_iff name).2 hname)

/-- Two texts are written alike exactly if they are read alike, for writing and reading undo each other up to the way in
which a text is written. -/
theorem decode_eq_iff_encode_eq (left right : String) : decode left = decode right ↔ encode left = encode right := by
  constructor
  · intro hread
    rw [← encode_decode left, hread, encode_decode]
  · intro hwritten
    rw [← decode_encode left, hwritten, decode_encode]

/-- No reserved character is left by encoding. So encoding twice is encoding once, the texts that are their own encoding,
whether or not they are decoded before, are those without a reserved character, and texts with the same decoding are
those with the same encoding. -/
theorem encode_settles (text : String) :
    encode (decode text) = encode text ∧
    (∀ c ∈ [',', ' ', '='], c ∉ (encode text).toList) ∧
    (encode (decode text) = text ↔ ∀ c ∈ [',', ' ', '='], c ∉ text.toList) ∧
    encode (encode text) = encode text ∧
    ∀ other, decode other = decode text ↔ encode other = encode text := by
  have hfree := reserved_not_mem_encode text
  refine ⟨encode_decode text, hfree, ?_, encode_of_no_reserved hfree, fun other => decode_eq_iff_encode_eq other text⟩
  rw [encode_decode]
  constructor
  · intro hsame
    rwa [hsame] at hfree
  · exact encode_of_no_reserved

theorem encode_ne_empty {name : String} (hname : name ≠ "") : encode name ≠ "" := by
  intro hempty
  apply replaceEach_ne_nil separate_encoding (mt String.toList_eq_nil_iff.1 hname)
  rw [← toList_encode, hempty]
  rfl

end Pluck.Escape
