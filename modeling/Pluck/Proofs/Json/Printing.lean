import Pluck.Proofs.Document.Trees
import Pluck.Proofs.Json.Numbers

/-!
# Reading a printed document

Both printers put blanks where the reader skips them and nowhere else, so that the reader gives the document back that
was printed (`ofString?_render`, `ofString?_renderIndented`). A text is read as a value whatever comes after it, so long
as a number has ended there: `Reads`. Strings and numbers are texts of this kind, and so is a container of such texts
with commas and blanks between them, whatever its `ContainerLayout` (`spells_array`, `spells_object`). The document must
be one that a text can hold: not too deep, and ordered.
-/

namespace Pluck.Json

/-! ### Strings -/

theorem hexadecimal?_hexDigit {n : Nat} (hn : n < 32) :
    hexadecimal? '0' '0' (hexDigit (n / 16)) (hexDigit (n % 16)) = some n := by
  have hall : ∀ n < 32, hexadecimal? '0' '0' (hexDigit (n / 16)) (hexDigit (n % 16)) = some n := by decide
  exact hall n hn

theorem characters?_unicode {a b c d : Char} {unit : Nat} (hunit : hexadecimal? a b c d = some unit)
    (hsurrogate : unit < 0xd800) (rest : List Char) :
    characters? ('\\' :: 'u' :: a :: b :: c :: d :: rest) = mapValue (.ofNat unit :: ·) (characters? rest) := by
  have hlow : isLowSurrogate unit = false := by
    simp [isLowSurrogate]
    omega
  have hhigh : isHighSurrogate unit = false := by
    simp [isHighSurrogate]
    omega
  rw [characters?.eq_def]
  simp [hunit, hlow, hhigh]

theorem characters?_quotedChar (c : Char) (rest : List Char) :
    characters? (quotedChar c ++ rest) = mapValue (c :: ·) (characters? rest) := by
  unfold quotedChar
  split
  case h_8 hquote hbackslash _ _ _ _ _ =>
    split
    next hcontrol =>
      have hcode : c.toNat < 32 := hcontrol
      have hread := characters?_unicode (hexadecimal?_hexDigit hcode) (by omega) rest
      rwa [Char.ofNat_toNat] at hread
    next hcontrol =>
      rw [List.singleton_append, characters?, if_neg hcontrol]
      · exact hquote
      · rintro _ _ _ _ _ rfl _
        exact hbackslash rfl
      · rintro _ _ rfl _
        exact hbackslash rfl
  all_goals rfl

theorem string?_quoted (text : String) (rest : List Char) : string? (quoted text ++ rest) = some (text, rest) := by
  have hread : ∀ content, characters? (content.flatMap quotedChar ++ '"' :: rest) = some (content, rest) := by
    intro content
    induction content with
    | nil => rfl
    | cons c content ih => rw [List.flatMap_cons, List.append_assoc, characters?_quotedChar, ih]; rfl
  rw [quoted, List.append_assoc, List.singleton_append, List.cons_append, string?, hread]
  exact congrArg (fun value => some (value, rest)) (String.ofList_toList (s := text))

/-! ### Where a value begins -/

/-- The text is read as the value wherever a number may end after it. -/
def Reads {α : Type} (reader : Reader α) (value : α) (text : List Char) : Prop :=
  ∀ rest, EndsNumber rest → reader.read (text ++ rest) = some (value, rest)

/-- Nothing that the reader takes begins with a blank or with the given character. -/
def Reader.Refuses {α : Type} (reader : Reader α) (close : Char) : Prop :=
  ∀ c rest, isBlank c ∨ c = close → reader.read (c :: rest) = none

section Refuses

variable {α : Type} {reader : Reader α} {close : Char} {text rest : List Char} {value : α}
  (hrefuses : reader.Refuses close) (hread : reader.read text = some (value, rest))

include hrefuses hread

theorem Reader.Refuses.exists_cons : ∃ c tail, text = c :: tail ∧ isBlank c = false ∧ c ≠ close := by
  obtain ⟨c, tail, rfl⟩ :=
    List.exists_cons_of_ne_nil (List.ne_nil_of_length_pos (Nat.zero_lt_of_lt (reader.shortens hread)))
  have hc : ¬(isBlank c ∨ c = close) := by
    intro hc
    rw [hrefuses c tail hc] at hread
    cases hread
  rw [not_or, Bool.not_eq_true] at hc
  exact ⟨c, tail, rfl, hc⟩

theorem Reader.Refuses.skipBlanks_eq : skipBlanks text = text := by
  obtain ⟨c, tail, rfl, hblank, _⟩ := hrefuses.exists_cons hread
  exact List.dropWhile_cons_of_neg (Bool.eq_false_iff.1 hblank)

end Refuses

theorem skipBlanks_append {blanks : List Char} (hblanks : ∀ c ∈ blanks, isBlank c) (rest : List Char) :
    skipBlanks (blanks ++ rest) = skipBlanks rest :=
  List.dropWhile_append_of_pos hblanks

/-- The characters with which a value can begin that is no container. -/
def startsScalar (c : Char) : Bool :=
  c = 'n' || c = 't' || c = 'f' || c = '"' || c = '-' || c.isDigit

theorem number?_eq_none {c : Char} (hc : startsScalar c = false) (rest : List Char) : number? (c :: rest) = none := by
  simp only [startsScalar, Bool.or_eq_false_iff, decide_eq_false_iff_not] at hc
  have hdigits : digits? (c :: rest) = none := by simp [digits?, hc.2]
  simp [number?, hc.1.2, hdigits]

theorem scalar?_eq_none {c : Char} (hc : startsScalar c = false) (rest : List Char) : scalar? (c :: rest) = none := by
  unfold scalar?
  split
  case h_5 => rw [number?_eq_none hc]; rfl
  all_goals
    rename_i heq
    cases heq
    cases hc

theorem scalar?_of_number? {text rest : List Char} {value : Number} (hread : number? text = some (value, rest)) :
    scalar? text = some (.number value, rest) := by
  unfold scalar?
  split
  case h_5 => rw [hread]; rfl
  all_goals cases hread

theorem startsScalar_eq_false_of_isBlank {c : Char} (hc : isBlank c) : startsScalar c = false := by
  simp only [isBlank, Bool.or_eq_true, beq_iff_eq] at hc
  obtain ((rfl | rfl) | rfl) | rfl := hc <;> decide

theorem valueReader_of_scalar? {text rest : List Char} {value : Json} (hread : scalar? text = some (value, rest))
    (depth : Nat) : (valueReader depth).read text = some (value, rest) := by
  cases depth with
  | zero => exact hread
  | succ depth =>
    change nested? (valueReader depth) text = _
    unfold nested?
    split
    · rw [scalar?_eq_none (by decide)] at hread
      cases hread
    · rw [scalar?_eq_none (by decide)] at hread
      cases hread
    · exact hread

theorem refuses_valueReader {close : Char} (hclose : close = ']' ∨ close = '\x7d') (depth : Nat) :
    (valueReader depth).Refuses close := by
  intro c rest hc
  have hstart : startsScalar c = false ∧ c ≠ '[' ∧ c ≠ '\x7b' := by
    rcases hc with hblank | rfl
    · refine ⟨startsScalar_eq_false_of_isBlank hblank, ?_, ?_⟩ <;> rintro rfl <;> cases hblank
    · rcases hclose with rfl | rfl <;> decide
  cases depth with
  | zero => exact scalar?_eq_none hstart.1 rest
  | succ depth =>
    change nested? (valueReader depth) (c :: rest) = none
    unfold nested?
    split
    · rename_i heq
      cases heq
      exact absurd rfl hstart.2.1
    · rename_i heq
      cases heq
      exact absurd rfl hstart.2.2
    · exact scalar?_eq_none hstart.1 rest

theorem refuses_fieldReader (value : Reader Json) : (fieldReader value).Refuses '\x7d' := by
  intro c rest hc
  have hquote : c ≠ '"' := by
    rintro rfl
    revert hc
    decide
  have hname : string? (c :: rest) = none := by
    unfold string?
    split
    · rename_i heq
      cases heq
      exact absurd rfl hquote
    · rfl
  change field? value (c :: rest) = none
  rw [field?, hname]
  rfl

/-! ### Containers -/

section Items

variable {α : Type} {close : Char} {item : Reader α} {first : α} {text rest later : List Char}

theorem itemsFrom?_of_close (hread : item.read text = some (first, rest)) (hclose : skipBlanks rest = close :: later) :
    itemsFrom? close item text = some ([first], later) := by
  unfold itemsFrom?
  split
  case h_1 hnone => rw [hnone] at hread; cases hread
  case h_2 hsome =>
    rw [hsome] at hread
    cases hread
    split
    case h_1 hnil => rw [hnil] at hclose; cases hclose
    case h_2 hcons =>
      rw [hcons] at hclose
      cases hclose
      exact if_pos rfl

theorem itemsFrom?_of_comma (hread : item.read text = some (first, rest)) (hcomma : skipBlanks rest = ',' :: later)
    (hclose : ',' ≠ close) :
    itemsFrom? close item text = mapValue (first :: ·) (itemsFrom? close item (skipBlanks later)) := by
  conv => lhs; unfold itemsFrom?
  split
  case h_1 hnone => rw [hnone] at hread; cases hread
  case h_2 hsome =>
    rw [hsome] at hread
    cases hread
    split
    case h_1 hnil => rw [hnil] at hcomma; cases hcomma
    case h_2 hcons =>
      rw [hcons] at hcomma
      cases hcomma
      rw [if_neg hclose, if_pos rfl]

end Items

theorem endsNumber_cons {c : Char} (hc : c.isDigit = false ∧ c ≠ '.' ∧ c ≠ 'e' ∧ c ≠ 'E') (rest : List Char) :
    EndsNumber (c :: rest) := by
  intro d hd
  cases hd
  exact hc

theorem endsNumber_append {blanks rest : List Char} (hblanks : ∀ c ∈ blanks, isBlank c) (hrest : EndsNumber rest) :
    EndsNumber (blanks ++ rest) := by
  cases blanks with
  | nil => exact hrest
  | cons blank blanks =>
    refine endsNumber_cons ?_ _
    have hblank := hblanks blank List.mem_cons_self
    simp only [isBlank, Bool.or_eq_true, beq_iff_eq] at hblank
    obtain ((rfl | rfl) | rfl) | rfl := hblank <;> decide

theorem commaSeparated_cons (text : List Char) (texts : List (List Char)) :
    commaSeparated (text :: texts) = text ++ texts.flatMap (',' :: ·) := by
  induction texts generalizing text with
  | nil => simp [commaSeparated]
  | cons second texts ih =>
    rw [List.flatMap_cons, List.cons_append, ← ih second]
    simp [commaSeparated, List.intercalate_cons_cons]

/-- How the inside of a container is printed, up to its closing bracket. -/
structure ContainerLayout (α : Type) where
  print : α → List Char
  gap : List Char
  ending : List Char
  close : Char
  isBlank_gap : ∀ c ∈ gap, isBlank c
  isBlank_ending : ∀ c ∈ ending, isBlank c
  closes : close = ']' ∨ close = '\x7d'

namespace ContainerLayout

variable {α : Type} (layout : ContainerLayout α)

def text (values : List α) : List Char :=
  commaSeparated (values.map fun value => layout.gap ++ layout.print value) ++ (layout.ending ++ [layout.close])

/-- What follows the first item. -/
def later (values : List α) : List Char :=
  values.flatMap (fun value => ',' :: (layout.gap ++ layout.print value)) ++ (layout.ending ++ [layout.close])

theorem text_cons (first : α) (values : List α) :
    layout.text (first :: values) = layout.gap ++ (layout.print first ++ layout.later values) := by
  rw [text, List.map_cons, commaSeparated_cons, List.flatMap_map, List.append_assoc, List.append_assoc]
  rfl

theorem later_cons (second : α) (values : List α) :
    layout.later (second :: values) = ',' :: (layout.gap ++ (layout.print second ++ layout.later values)) := by
  rw [later, List.flatMap_cons, List.append_assoc, List.cons_append, List.append_assoc]
  rfl

theorem skipBlanks_later_nil (rest : List Char) : skipBlanks (layout.later [] ++ rest) = layout.close :: rest := by
  rw [later, List.flatMap_nil, List.nil_append, List.append_assoc, skipBlanks_append layout.isBlank_ending]
  refine List.dropWhile_cons_of_neg ?_
  obtain hclose | hclose := layout.closes <;> rw [hclose] <;> decide

theorem endsNumber_later (values : List α) (rest : List Char) : EndsNumber (layout.later values ++ rest) := by
  cases values with
  | nil =>
    rw [later, List.flatMap_nil, List.nil_append, List.append_assoc]
    refine endsNumber_append layout.isBlank_ending (endsNumber_cons ?_ rest)
    obtain hclose | hclose := layout.closes <;> rw [hclose] <;> decide
  | cons second values =>
    rw [later_cons]
    exact endsNumber_cons (by decide) _

end ContainerLayout

section Containers

variable {α : Type} {item : Reader α} (layout : ContainerLayout α) (hrefuses : item.Refuses layout.close)

include hrefuses

theorem itemsFrom?_print {first : α} {values : List α}
    (hvalues : ∀ value ∈ first :: values, Reads item value (layout.print value)) (rest : List Char) :
    itemsFrom? layout.close item (layout.print first ++ (layout.later values ++ rest)) =
      some (first :: values, rest) := by
  induction values generalizing first with
  | nil =>
    have hread := hvalues first List.mem_cons_self _ (layout.endsNumber_later [] rest)
    exact itemsFrom?_of_close hread (layout.skipBlanks_later_nil rest)
  | cons second values ih =>
    obtain ⟨hfirst, hvalues⟩ := List.forall_mem_cons.1 hvalues
    have hread := hfirst _ (layout.endsNumber_later (second :: values) rest)
    have hsecond := hvalues second List.mem_cons_self _ (layout.endsNumber_later values rest)
    rw [layout.later_cons, List.cons_append, List.append_assoc, List.append_assoc] at hread ⊢
    rw [itemsFrom?_of_comma hread (List.dropWhile_cons_of_neg (by decide)), skipBlanks_append layout.isBlank_gap,
      hrefuses.skipBlanks_eq hsecond, ih hvalues]
    · rfl
    · obtain hclose | hclose := layout.closes <;> rw [hclose] <;> decide

theorem items?_text {values : List α} (hvalues : ∀ value ∈ values, Reads item value (layout.print value))
    (rest : List Char) : items? layout.close item (layout.text values ++ rest) = some (values, rest) := by
  cases values with
  | nil =>
    have hskip : skipBlanks (layout.text [] ++ rest) = layout.close :: rest := layout.skipBlanks_later_nil rest
    rw [items?, hskip]
    exact if_pos rfl
  | cons first values =>
    have hread := hvalues first List.mem_cons_self _ (layout.endsNumber_later values rest)
    obtain ⟨c, tail, htext, _, hc⟩ := hrefuses.exists_cons hread
    rw [layout.text_cons, List.append_assoc, List.append_assoc, items?, skipBlanks_append layout.isBlank_gap,
      hrefuses.skipBlanks_eq hread, htext]
    refine (if_neg hc).trans ?_
    rw [← htext, itemsFrom?_print layout hrefuses hvalues]

end Containers

/-! ### Documents -/

/-- The text is read as the document, if this is ordered, by every reader that goes deep enough. -/
def Spells (text : List Char) (json : Json) : Prop :=
  json.IsOrdered → ∀ depth, json.depth ≤ depth → Reads (valueReader depth) json text

theorem spells_scalar {json : Json} (hdepth : json.depth = 0) : Spells (print json) json := by
  intro _ depth _ rest hrest
  apply valueReader_of_scalar?
  cases json with
  | null => rfl
  | boolean value => cases value <;> rfl
  | number value => exact scalar?_of_number? (number?_print value hrest)
  | string text =>
    change mapValue Document.string (string? (quoted text ++ rest)) = _
    rw [string?_quoted]
    rfl
  | array | object => exact absurd hdepth (Nat.succ_ne_zero _)

theorem spells_array (layout : ContainerLayout Json) (hclose : layout.close = ']') {items : List Json}
    (hitems : ∀ item ∈ items, Spells (layout.print item) item) : Spells ('[' :: layout.text items) (.array items) := by
  intro hordered depth hdepth rest hrest
  rw [Document.isOrdered_array_iff] at hordered
  cases depth with
  | zero => simp [Document.depth] at hdepth
  | succ depth =>
    rw [Document.depth_array_le_iff] at hdepth
    change mapValue Document.array (items? ']' (valueReader depth) (layout.text items ++ rest)) = _
    rw [← hclose, items?_text layout (refuses_valueReader layout.closes depth)]
    · rfl
    · exact fun item hitem => hitems item hitem (hordered item hitem) depth (hdepth item hitem)

theorem reads_field {value : Reader Json} {field : String × Json} {space text : List Char}
    (hrefuses : value.Refuses '\x7d') (hspace : ∀ c ∈ space, isBlank c) (hread : Reads value field.2 text) :
    Reads (fieldReader value) field (quoted field.1 ++ ':' :: (space ++ text)) := by
  intro rest hrest
  have hvalue := hread rest hrest
  have hcolon : skipBlanks (':' :: (space ++ (text ++ rest))) = ':' :: (space ++ (text ++ rest)) :=
    List.dropWhile_cons_of_neg (by decide)
  change field? value _ = _
  rw [field?, List.append_assoc, string?_quoted, List.cons_append, List.append_assoc]
  simp only [Option.bind_eq_bind, Option.bind_some, hcolon, skipBlanks_append hspace, hrefuses.skipBlanks_eq hvalue,
    hvalue]

theorem spells_object (layout : ContainerLayout (String × Json)) (hclose : layout.close = '\x7d') (space : List Char)
    (hspace : ∀ c ∈ space, isBlank c) {print : Json → List Char}
    (hprint : ∀ field, layout.print field = quoted field.1 ++ ':' :: (space ++ print field.2))
    {fields : List (String × Json)} (hfields : ∀ field ∈ fields, Spells (print field.2) field.2) :
    Spells ('\x7b' :: layout.text fields) (.object fields) := by
  intro hordered depth hdepth rest hrest
  rw [Document.isOrdered_object_iff] at hordered
  cases depth with
  | zero => simp [Document.depth] at hdepth
  | succ depth =>
    rw [Document.depth_object_le_iff] at hdepth
    have hrefuses := refuses_valueReader (.inr rfl) depth
    have hfieldRefuses : (fieldReader (valueReader depth)).Refuses layout.close := hclose ▸ refuses_fieldReader _
    change mapValue Document.ofEntries (items? '\x7d' (fieldReader _) (layout.text fields ++ rest)) = _
    rw [← hclose, items?_text layout hfieldRefuses]
    · exact congrArg (fun fields => some (Document.object fields, rest)) (Fields.ofList_eq_self hordered.1)
    · intro field hfield
      rw [hprint]
      have hread := hfields field hfield (hordered.2 field hfield) depth (hdepth field hfield)
      exact reads_field hrefuses hspace hread

/-! ### A document on one line -/

theorem printItems_eq_map (items : List Json) : printItems items = items.map print := by
  induction items with
  | nil => rfl
  | cons item rest ih => rw [printItems, ih, List.map_cons]

theorem printFields_eq_map (fields : List (String × Json)) :
    printFields fields = fields.map fun field => quoted field.1 ++ ':' :: print field.2 := by
  induction fields with
  | nil => rfl
  | cons field rest ih => rw [printFields, ih, List.map_cons]

theorem spells_print (json : Json) : Spells (print json) json := by
  induction json using Document.induction with
  | null | boolean | number | string => exact spells_scalar rfl
  | array items ih =>
    rw [print, printItems_eq_map]
    exact spells_array ⟨print, [], [], ']', nofun, nofun, .inl rfl⟩ rfl ih
  | object fields ih =>
    rw [print, printFields_eq_map]
    let layout : ContainerLayout (String × Json) :=
      ⟨fun field => quoted field.1 ++ ':' :: print field.2, [], [], '\x7d', nofun, nofun, .inr rfl⟩
    exact spells_object layout rfl [] nofun (fun _ => rfl) ih

/-! ### A document over several lines -/

theorem isBlank_newLine (level : Nat) : ∀ c ∈ newLine level, isBlank c := by
  rw [newLine, List.forall_mem_cons]
  exact ⟨rfl, List.forall_mem_replicate.2 (.inr rfl)⟩

theorem printItemsIndented_eq_map (level : Nat) (items : List Json) :
    printItemsIndented level items = items.map (printIndented level) := by
  induction items with
  | nil => rfl
  | cons item rest ih => rw [printItemsIndented, ih, List.map_cons]

theorem printFieldsIndented_eq_map (level : Nat) (fields : List (String × Json)) :
    printFieldsIndented level fields =
      fields.map fun field => quoted field.1 ++ ':' :: ' ' :: printIndented level field.2 := by
  induction fields with
  | nil => rfl
  | cons field rest ih => rw [printFieldsIndented, ih, List.map_cons]

/-- An empty container ends like one of a document on one line. -/
theorem exists_layout_block {α : Type} (opening : Char) {close : Char} (hclose : close = ']' ∨ close = '\x7d')
    (level : Nat) (print : α → List Char) (values : List α) :
    ∃ layout : ContainerLayout α, layout.print = print ∧ layout.close = close ∧
      block opening close level (values.map print) = opening :: layout.text values := by
  cases values with
  | nil => exact ⟨⟨print, [], [], close, nofun, nofun, hclose⟩, rfl, rfl, rfl⟩
  | cons value values =>
    refine ⟨⟨print, newLine (level + 1), newLine level, close, isBlank_newLine _, isBlank_newLine _, hclose⟩, rfl, rfl,
      ?_⟩
    rw [block, if_neg (by simp), ContainerLayout.text, List.map_map, List.append_assoc]
    rfl

theorem spells_printIndented (json : Json) (level : Nat) : Spells (printIndented level json) json := by
  induction json using Document.induction generalizing level with
  | null | boolean | number | string => exact spells_scalar rfl
  | array items ih =>
    rw [printIndented, printItemsIndented_eq_map]
    obtain ⟨layout, hprint, hclose, htext⟩ := exists_layout_block '[' (.inl rfl) level (printIndented (level + 1)) items
    rw [htext]
    exact spells_array layout hclose fun item hitem => hprint ▸ ih item hitem (level + 1)
  | object fields ih =>
    rw [printIndented, printFieldsIndented_eq_map]
    obtain ⟨layout, hprint, hclose, htext⟩ := exists_layout_block '\x7b' (.inr rfl) level
      (fun field : String × Json => quoted field.1 ++ ':' :: ' ' :: printIndented (level + 1) field.2) fields
    rw [htext]
    refine spells_object layout hclose [' '] (List.forall_mem_singleton.2 rfl) (fun field => congrFun hprint field) ?_
    exact fun field hfield => ih field hfield (level + 1)

/-! ### The whole text -/

theorem ofString?_of_spells {text : List Char} {json : Json} (hspells : Spells text json) (hordered : json.IsOrdered)
    (hdepth : json.depth ≤ maximalDepth) : ofString? (.ofList text ++ "\n") = some json := by
  have hread := hspells hordered maximalDepth hdepth ['\n'] (endsNumber_cons (by decide) [])
  have hrefuses := refuses_valueReader (.inl rfl) maximalDepth
  rw [ofString?, String.toList_append, String.toList_ofList]
  change Option.bind ((valueReader maximalDepth).read (skipBlanks (text ++ ['\n']))) _ = _
  rw [hrefuses.skipBlanks_eq hread, hread]
  rfl

theorem ofString?_render {json : Json} (hordered : json.IsOrdered) (hdepth : json.depth ≤ maximalDepth) :
    ofString? (json.render ++ "\n") = some json :=
  ofString?_of_spells (spells_print json) hordered hdepth

theorem ofString?_renderIndented {json : Json} (hordered : json.IsOrdered) (hdepth : json.depth ≤ maximalDepth) :
    ofString? (json.renderIndented ++ "\n") = some json :=
  ofString?_of_spells (spells_printIndented json 0) hordered hdepth

end Pluck.Json
