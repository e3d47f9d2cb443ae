import Pluck.Binary64.Shortest
import Pluck.Json.Basic

/-!
# Printing JSON

`Json.render` prints a document without blanks, `Json.renderIndented` over several lines. The fields of an object come
in the order of their names. A floating-point number has the fewest digits that read back, and always a decimal point or
an exponent, which tell it from an integer.
-/

namespace Pluck.Json

/-! ### Strings -/

def hexDigit (n : Nat) : Char :=
  Nat.digitChar n

def quotedChar (c : Char) : List Char :=
  match c with
  | '"' => ['\\', '"']
  | '\\' => ['\\', '\\']
  | '\x08' => ['\\', 'b']
  | '\x0c' => ['\\', 'f']
  | '\n' => ['\\', 'n']
  | '\r' => ['\\', 'r']
  | '\t' => ['\\', 't']
  | c => if c < ' ' then ['\\', 'u', '0', '0', hexDigit (c.toNat / 16), hexDigit (c.toNat % 16)] else [c]

def quoted (text : String) : List Char :=
  '"' :: text.toList.flatMap quotedChar ++ ['"']

/-! ### Numbers -/

structure FloatLayout where
  /-- The least exponent of ten of a number that is written without one. -/
  leastPlain : Int
  /-- The greatest exponent of ten of a number that is written without one. -/
  greatestPlain : Int
  mark : Char

/-- Numbers from `1e-5` to just below `1e16` are written without an exponent. -/
def floatLayout : FloatLayout :=
  ⟨-5, 15, 'e'⟩

/-- Digits with a decimal point before them, among them or after them, and at least one digit on each side of it. -/
def plain (digits : List Char) (exponent : Int) : List Char :=
  if exponent < 0 then '0' :: '.' :: List.replicate (-exponent - 1).toNat '0' ++ digits
  else
    let whole := exponent.toNat + 1
    digits.take whole ++ List.replicate (whole - digits.length) '0' ++
      '.' :: (if digits.length ≤ whole then ['0'] else digits.drop whole)

/-- Digits with a decimal point after the first, if others follow, and the power of ten with its sign. -/
def scientific (mark : Char) (digits : List Char) (exponent : Int) : List Char :=
  let places := digits.drop 1
  digits.take 1 ++ (if places.isEmpty then [] else '.' :: places) ++
    mark :: (if exponent < 0 then '-' else '+') :: Nat.toDigits 10 exponent.natAbs

/-- The text of a decimal number that is not zero. -/
def FloatLayout.print (layout : FloatLayout) (decimal : Decimal) : List Char :=
  let digits := Nat.toDigits 10 decimal.coefficient
  let exponent := decimal.exponent + digits.length - 1
  let significant := (digits.reverse.dropWhile (· == '0')).reverse
  if layout.leastPlain ≤ exponent ∧ exponent ≤ layout.greatestPlain then plain significant exponent
  else scientific layout.mark significant exponent

def floatText (value : Binary64) : List Char :=
  (if value.isNegative then ['-'] else []) ++
    if value.code = 0 then ['0', '.', '0'] else floatLayout.print (Binary64.shortest value.code)

def Number.print : Number → List Char
  | natural value => Nat.toDigits 10 value.toNat
  | negative value _ => '-' :: Nat.toDigits 10 value.toInt.natAbs
  | float value _ => floatText value

/-! ### Documents -/

def commaSeparated (items : List (List Char)) : List Char :=
  List.intercalate [','] items

mutual

def print : Json → List Char
  | .null => ['n', 'u', 'l', 'l']
  | .boolean true => ['t', 'r', 'u', 'e']
  | .boolean false => ['f', 'a', 'l', 's', 'e']
  | .number value => value.print
  | .string text => quoted text
  | .array items => '[' :: commaSeparated (printItems items) ++ [']']
  | .object fields => '\x7b' :: commaSeparated (printFields fields) ++ ['\x7d']

def printItems : List Json → List (List Char)
  | [] => []
  | item :: rest => print item :: printItems rest

def printFields : List (String × Json) → List (List Char)
  | [] => []
  | (name, value) :: rest => (quoted name ++ ':' :: print value) :: printFields rest

end

def render (json : Json) : String :=
  .ofList (print json)

/-! ### Documents over several lines -/

/-- A new line inside `level` containers. -/
def newLine (level : Nat) : List Char :=
  '\n' :: List.replicate (2 * level) ' '

/-- A container inside `level` others, with each of its items on a line. A container without items is closed at once. -/
def block (opening close : Char) (level : Nat) (items : List (List Char)) : List Char :=
  if items.isEmpty then [opening, close]
  else
    opening :: commaSeparated (items.map (newLine (level + 1) ++ ·)) ++ newLine level ++ [close]

mutual

def printIndented (level : Nat) : Json → List Char
  | .array items => block '[' ']' level (printItemsIndented (level + 1) items)
  | .object fields => block '\x7b' '\x7d' level (printFieldsIndented (level + 1) fields)
  | other => print other

def printItemsIndented (level : Nat) : List Json → List (List Char)
  | [] => []
  | item :: rest => printIndented level item :: printItemsIndented level rest

def printFieldsIndented (level : Nat) : List (String × Json) → List (List Char)
  | [] => []
  | (name, value) :: rest =>
    (quoted name ++ ':' :: ' ' :: printIndented level value) :: printFieldsIndented level rest

end

def renderIndented (json : Json) : String :=
  .ofList (printIndented 0 json)

end Pluck.Json
