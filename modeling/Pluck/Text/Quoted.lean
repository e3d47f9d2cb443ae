import Pluck.Text.Extending
import Pluck.Text.Unprintable

/-!
# Quoted text

Messages show text from outside between double quotes, so that the reader sees where it begins and ends and which
characters it has. A character that shows nothing, or that extends the one before it, is written by its code point.
-/

namespace Pluck.Text

/-- A character by its code point, in hexadecimal. -/
def codePoint (c : Char) : List Char :=
  ['\\', 'u', '\x7b'] ++ Nat.toDigits 16 c.toNat ++ ['\x7d']

def quotedChar : Char → List Char
  | '\x00' => ['\\', '0']
  | '\t' => ['\\', 't']
  | '\n' => ['\\', 'n']
  | '\r' => ['\\', 'r']
  | '"' => ['\\', '"']
  | '\\' => ['\\', '\\']
  | c => if isExtending c || isUnprintable c then codePoint c else [c]

def quoted (text : String) : String :=
  String.ofList ('"' :: text.toList.flatMap quotedChar ++ ['"'])

end Pluck.Text
