import Pluck.Json.Basic

/-!
# Reading JSON

`Json.ofString?` reads a text that holds one JSON value and nothing else but blanks around it. Containers nest no deeper
than `maximalDepth`. Of fields with the same name, the last one counts. An integer that fits 64 bits stays an integer;
every other number is rounded to the nearest floating-point number, and so is minus zero, which no integer is. The
rounding is exact, whatever the number of digits: a reader that rounds the digits and the power of ten apart from each
other gives a neighbour of the nearest number for some numerals, and may find the greatest ones too large.
-/

namespace Pluck.Json

/-- Reads what a text begins with, and gives back what follows it. A reader that succeeds has taken part of the text. -/
structure Reader (α : Type) where
  read : List Char → Option (α × List Char)
  shortens : ∀ {text rest : List Char} {value : α}, read text = some (value, rest) → rest.length < text.length

/-- The same part of the text read as another value. -/
def mapValue {α β : Type} (f : α → β) (reading : Option (α × List Char)) : Option (β × List Char) :=
  reading.map fun (value, rest) => (f value, rest)

theorem exists_of_mapValue {α β : Type} {f : α → β} {reading : Option (α × List Char)} {value : β} {rest : List Char}
    (h : mapValue f reading = some (value, rest)) : ∃ inner, reading = some (inner, rest) := by
  obtain ⟨⟨inner, _⟩, found, result⟩ := Option.map_eq_some_iff.1 h
  cases result
  exact ⟨inner, found⟩

def isBlank (c : Char) : Bool :=
  c == ' ' || c == '\t' || c == '\n' || c == '\r'

def skipBlanks (text : List Char) : List Char :=
  text.dropWhile isBlank

theorem length_skipBlanks_le (text : List Char) : (skipBlanks text).length ≤ text.length :=
  (List.dropWhile_suffix isBlank).length_le

theorem length_lt_of_skipBlanks {text rest : List Char} {c : Char} (h : skipBlanks text = c :: rest) :
    rest.length < text.length := by
  have := length_skipBlanks_le text
  rw [h] at this
  exact this

/-! ### Strings -/

def hexDigit? (c : Char) : Option Nat :=
  if '0' ≤ c ∧ c ≤ '9' then some (c.toNat - '0'.toNat)
  else if 'a' ≤ c ∧ c ≤ 'f' then some (c.toNat - 'a'.toNat + 10)
  else if 'A' ≤ c ∧ c ≤ 'F' then some (c.toNat - 'A'.toNat + 10)
  else none

def hexadecimal? (a b c d : Char) : Option Nat := do
  some ((((← hexDigit? a) * 16 + (← hexDigit? b)) * 16 + (← hexDigit? c)) * 16 + (← hexDigit? d))

/-- The character that a backslash and one more character stand for. -/
def escaped? : Char → Option Char
  | '"' => some '"'
  | '\\' => some '\\'
  | '/' => some '/'
  | 'b' => some '\x08'
  | 'f' => some '\x0c'
  | 'n' => some '\n'
  | 'r' => some '\r'
  | 't' => some '\t'
  | _ => none

def isHighSurrogate (unit : Nat) : Bool :=
  0xd800 ≤ unit && unit < 0xdc00

def isLowSurrogate (unit : Nat) : Bool :=
  0xdc00 ≤ unit && unit < 0xe000

def surrogatePair (high low : Nat) : Char :=
  .ofNat (0x10000 + (high - 0xd800) * 0x400 + (low - 0xdc00))

/-- The characters of a string whose opening quote has been read. An escaped code unit is a character of its own or the
first half of a pair, whose second half must follow. -/
def characters? : List Char → Option (List Char × List Char)
  | [] => none
  | '"' :: rest => some ([], rest)
  | '\\' :: 'u' :: a :: b :: c :: d :: rest =>
    match hexadecimal? a b c d with
    | none => none
    | some unit =>
      if isLowSurrogate unit then none
      else if isHighSurrogate unit then
        match rest with
        | '\\' :: 'u' :: e :: f :: g :: h :: rest =>
          match hexadecimal? e f g h with
          | none => none
          | some low =>
            if isLowSurrogate low then mapValue (surrogatePair unit low :: ·) (characters? rest)
            else none
        | _ => none
      else mapValue (.ofNat unit :: ·) (characters? rest)
  | '\\' :: c :: rest =>
    match escaped? c with
    | none => none
    | some c => mapValue (c :: ·) (characters? rest)
  | c :: rest => if c < ' ' then none else mapValue (c :: ·) (characters? rest)

theorem length_lt_of_characters? {text rest content : List Char} (h : characters? text = some (content, rest)) :
    rest.length < text.length := by
  fun_induction characters? text generalizing content with
  | case1 | case3 | case4 | case5 | case7 | case8 | case10 | case12 => cases h
  | case2 => cases h; simp
  | case6 _ _ _ _ _ _ _ _ _ _ _ _ _ _ _ _ ih =>
    obtain ⟨_, found⟩ := exists_of_mapValue h
    exact Nat.lt_trans (ih found) (by simp only [List.length_cons]; omega)
  | case9 _ _ _ _ _ _ _ _ _ ih =>
    obtain ⟨_, found⟩ := exists_of_mapValue h
    exact Nat.lt_trans (ih found) (by simp only [List.length_cons]; omega)
  | case11 _ _ _ _ _ ih =>
    obtain ⟨_, found⟩ := exists_of_mapValue h
    exact Nat.lt_trans (ih found) (by simp only [List.length_cons]; omega)
  | case13 _ _ _ _ _ _ ih =>
    obtain ⟨_, found⟩ := exists_of_mapValue h
    exact Nat.lt_trans (ih found) (by simp only [List.length_cons]; omega)

def string? : List Char → Option (String × List Char)
  | '"' :: rest => mapValue .ofList (characters? rest)
  | _ => none

theorem length_lt_of_string? {text rest : List Char} {value : String} (h : string? text = some (value, rest)) :
    rest.length < text.length := by
  unfold string? at h
  split at h
  · obtain ⟨_, found⟩ := exists_of_mapValue h
    exact Nat.lt_succ_of_lt (length_lt_of_characters? found)
  · cases h

/-! ### Numbers -/

/-- The longest run of digits, which must not be empty. -/
def digits? (text : List Char) : Option (List Char × List Char) :=
  let digits := text.takeWhile Char.isDigit
  if digits.isEmpty then none else some (digits, text.dropWhile Char.isDigit)

/-- The digits after a decimal point, if there is one. -/
def fraction? : List Char → Option (Option (List Char) × List Char)
  | '.' :: rest => mapValue some (digits? rest)
  | text => some (none, text)

/-- Whether a sign is the minus sign; no sign is as good as a plus sign. -/
def sign : List Char → Bool × List Char
  | '-' :: rest => (true, rest)
  | '+' :: rest => (false, rest)
  | text => (false, text)

/-- The power of ten after the letter that announces it, if there is one. -/
def exponent? : List Char → Option (Option Int × List Char)
  | c :: rest =>
    if c = 'e' ∨ c = 'E' then
      let (negative, rest) := sign rest
      mapValue
        (fun digits =>
          let value : Int := Nat.ofDigitChars 10 digits 0
          some (if negative then -value else value))
        (digits? rest)
    else some (none, c :: rest)
  | [] => some (none, [])

def Number.ofDecimal? (negative : Bool) (decimal : Decimal) : Option Number :=
  (Binary64.ofDecimal? negative decimal).bind fun value => if h : value.isFinite then some (.float value h) else none

def Number.ofInteger? (negative : Bool) (magnitude : Nat) : Option Number :=
  let value : Int64 := .ofInt (-magnitude)
  if !negative && magnitude < Nat.pow 2 64 then some (.natural (.ofNat magnitude))
  else if h : negative ∧ magnitude ≤ Nat.pow 2 63 ∧ value < 0 then some (.negative value h.2.2)
  else Number.ofDecimal? negative ⟨magnitude, 0⟩

/-- The number of a sign, the digits before the decimal point, those after it and the power of ten. -/
def Number.ofParts? (negative : Bool) (whole : List Char) (fraction : Option (List Char)) (exponent : Option Int) :
    Option Number :=
  match fraction, exponent with
  | none, none => Number.ofInteger? negative (Nat.ofDigitChars 10 whole 0)
  | _, _ =>
    let places := fraction.getD []
    Number.ofDecimal? negative ⟨Nat.ofDigitChars 10 (whole ++ places) 0, exponent.getD 0 - places.length⟩

/-- A number. Its integral part has no needless zeros at the front. -/
def number? (text : List Char) : Option (Number × List Char) := do
  let negative := text.head? == some '-'
  let (whole, text) ← digits? (if negative then text.tail else text)
  if whole.head? = some '0' ∧ whole ≠ ['0'] then none
  let (fraction, text) ← fraction? text
  let (exponent, text) ← exponent? text
  let number ← Number.ofParts? negative whole fraction exponent
  some (number, text)

theorem length_lt_of_digits? {text rest digits : List Char} (h : digits? text = some (digits, rest)) :
    rest.length < text.length := by
  simp only [digits?] at h
  split at h
  · cases h
  next nonempty =>
    cases h
    have split := congrArg List.length (List.takeWhile_append_dropWhile (p := Char.isDigit) (l := text))
    have := List.length_pos_iff.2 (mt List.isEmpty_iff.2 nonempty)
    simp only [List.length_append] at split
    omega

theorem length_le_of_fraction? {text rest : List Char} {digits : Option (List Char)}
    (h : fraction? text = some (digits, rest)) : rest.length ≤ text.length := by
  unfold fraction? at h
  split at h
  · obtain ⟨_, found⟩ := exists_of_mapValue h
    exact Nat.le_succ_of_le (Nat.le_of_lt (length_lt_of_digits? found))
  · cases h; exact Nat.le_refl _

theorem length_sign_le (text : List Char) : (sign text).2.length ≤ text.length := by
  unfold sign
  split <;> simp

theorem length_le_of_exponent? {text rest : List Char} {exponent : Option Int}
    (h : exponent? text = some (exponent, rest)) : rest.length ≤ text.length := by
  unfold exponent? at h
  split at h
  · split at h
    · obtain ⟨_, found⟩ := exists_of_mapValue h
      exact Nat.le_succ_of_le (Nat.le_trans (Nat.le_of_lt (length_lt_of_digits? found)) (length_sign_le _))
    · cases h; exact Nat.le_refl _
  · cases h; exact Nat.le_refl _

theorem length_lt_of_number? {text rest : List Char} {value : Number} (h : number? text = some (value, rest)) :
    rest.length < text.length := by
  simp only [number?, Option.bind_eq_bind, Option.bind_eq_some_iff] at h
  obtain ⟨⟨_, _⟩, whole, h⟩ := h
  split at h
  · cases h
  · simp only [Option.bind_eq_some_iff] at h
    obtain ⟨⟨_, _⟩, fraction, ⟨_, _⟩, exponent, _, _, result⟩ := h
    cases result
    refine Nat.lt_of_le_of_lt (length_le_of_exponent? exponent) ?_
    refine Nat.lt_of_le_of_lt (length_le_of_fraction? fraction) ?_
    refine Nat.lt_of_lt_of_le (length_lt_of_digits? whole) ?_
    split <;> simp

/-! ### Values -/

/-- Items with commas between them, up to the closing bracket. The first item begins here. -/
def itemsFrom? {α : Type} (close : Char) (item : Reader α) (text : List Char) : Option (List α × List Char) :=
  match found : item.read text with
  | none => none
  | some (first, rest) =>
    match after : skipBlanks rest with
    | [] => none
    | c :: rest =>
      if c = close then some ([first], rest)
      else if c = ',' then
        have := item.shortens found
        have := length_lt_of_skipBlanks after
        have := length_skipBlanks_le rest
        mapValue (first :: ·) (itemsFrom? close item (skipBlanks rest))
      else none
termination_by text.length

/-- The items of a container whose opening bracket has been read. -/
def items? {α : Type} (close : Char) (item : Reader α) (text : List Char) : Option (List α × List Char) :=
  match skipBlanks text with
  | [] => none
  | c :: rest => if c = close then some ([], rest) else itemsFrom? close item (c :: rest)

theorem length_lt_of_itemsFrom? {α : Type} {close : Char} {item : Reader α} {text rest : List Char} {items : List α}
    (h : itemsFrom? close item text = some (items, rest)) : rest.length < text.length := by
  fun_induction itemsFrom? close item text generalizing items with
  | case1 | case2 | case5 => cases h
  | case3 text first before found next start =>
    cases h
    exact Nat.lt_trans (length_lt_of_skipBlanks start) (item.shortens found)
  | case4 text first before found next start _ _ _ _ ih =>
    obtain ⟨_, later⟩ := exists_of_mapValue h
    have := ih later
    omega

theorem length_lt_of_items? {α : Type} {close : Char} {item : Reader α} {text rest : List Char} {items : List α}
    (h : items? close item text = some (items, rest)) : rest.length < text.length := by
  unfold items? at h
  split at h
  · cases h
  next start =>
    split at h
    · cases h
      exact length_lt_of_skipBlanks start
    · have := length_skipBlanks_le text
      rw [start] at this
      exact Nat.lt_of_lt_of_le (length_lt_of_itemsFrom? h) this

def field? (inner : Reader Json) (text : List Char) : Option ((String × Json) × List Char) := do
  let (name, rest) ← string? text
  match skipBlanks rest with
  | ':' :: rest =>
    let (value, rest) ← inner.read (skipBlanks rest)
    some ((name, value), rest)
  | _ => none

theorem length_lt_of_field? {inner : Reader Json} {text rest : List Char} {value : String × Json}
    (h : field? inner text = some (value, rest)) : rest.length < text.length := by
  simp only [field?, Option.bind_eq_bind, Option.bind_eq_some_iff] at h
  obtain ⟨⟨_, _⟩, name, h⟩ := h
  split at h
  next colon =>
    obtain ⟨⟨_, _⟩, found, result⟩ := Option.bind_eq_some_iff.1 h
    cases result
    refine Nat.lt_trans (inner.shortens found) (Nat.lt_of_le_of_lt (length_skipBlanks_le _) ?_)
    exact Nat.lt_trans (length_lt_of_skipBlanks colon) (length_lt_of_string? name)
  · cases h

def fieldReader (value : Reader Json) : Reader (String × Json) :=
  ⟨field? value, length_lt_of_field?⟩

def scalar? : List Char → Option (Json × List Char)
  | 'n' :: 'u' :: 'l' :: 'l' :: rest => some (.null, rest)
  | 't' :: 'r' :: 'u' :: 'e' :: rest => some (.boolean true, rest)
  | 'f' :: 'a' :: 'l' :: 's' :: 'e' :: rest => some (.boolean false, rest)
  | '"' :: rest => mapValue .string (string? ('"' :: rest))
  | text => mapValue .number (number? text)

/-- A value, which may be a container of values inside it. -/
def nested? (inner : Reader Json) : List Char → Option (Json × List Char)
  | '[' :: rest => mapValue .array (items? ']' inner rest)
  | '\x7b' :: rest => mapValue .ofEntries (items? '\x7d' (fieldReader inner) rest)
  | text => scalar? text

theorem length_lt_of_scalar? {text rest : List Char} {value : Json} (h : scalar? text = some (value, rest)) :
    rest.length < text.length := by
  unfold scalar? at h
  split at h
  case h_4 =>
    obtain ⟨_, found⟩ := exists_of_mapValue h
    exact length_lt_of_string? found
  case h_5 =>
    obtain ⟨_, found⟩ := exists_of_mapValue h
    exact length_lt_of_number? found
  all_goals cases h; simp only [List.length_cons]; omega

theorem length_lt_of_nested? {inner : Reader Json} {text rest : List Char} {value : Json}
    (h : nested? inner text = some (value, rest)) : rest.length < text.length := by
  unfold nested? at h
  split at h
  · obtain ⟨_, found⟩ := exists_of_mapValue h
    exact Nat.lt_succ_of_lt (length_lt_of_items? found)
  · obtain ⟨_, found⟩ := exists_of_mapValue h
    exact Nat.lt_succ_of_lt (length_lt_of_items? found)
  · exact length_lt_of_scalar? h

/-- A value in which containers nest at most `depth` deep. -/
def valueReader : Nat → Reader Json
  | 0 => ⟨scalar?, length_lt_of_scalar?⟩
  | depth + 1 => ⟨nested? (valueReader depth), length_lt_of_nested?⟩

def maximalDepth : Nat := 127

/-- The document that a text holds, with its decimal numerals rounded exactly. -/
def ofString? (text : String) : Option Json := do
  let (value, rest) ← (valueReader maximalDepth).read (skipBlanks text.toList)
  if (skipBlanks rest).isEmpty then some value else none

end Pluck.Json
