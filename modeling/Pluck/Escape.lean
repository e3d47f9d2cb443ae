/-!
# Escaped field names

A query gives `,`, ` ` and `=` a meaning of their own. A field name that holds one of them is written with the
character's escaped form in its place, and none of the three forms holds a character with a meaning of its own.
`encode` writes a name, `decode` reads it. Both go through the table one entry at a time, and there is no escape for an
escaped form: a name that already holds one cannot be written.
-/

namespace Pluck.Escape

/-- Each reserved character beside the form that stands for it, in the order in which they are replaced. -/
def table : List (String × String) :=
  [(",", "%5C%2C"), (" ", "%20"), ("=", "%5C%3D")]

/-- Copies a text with every occurrence of `old` replaced, where the first `passed` characters belong to an occurrence
that has been replaced already. -/
def replaceFrom (old new : List Char) : Nat → List Char → List Char
  | _, [] => []
  | passed + 1, _ :: rest => replaceFrom old new passed rest
  | 0, c :: rest =>
    if old.isPrefixOf (c :: rest) then new ++ replaceFrom old new (old.length - 1) rest
    else c :: replaceFrom old new 0 rest

/-- Replaces the occurrences of the non-empty `old`, found from left to right and without overlap. -/
def replaceAll (old new text : String) : String :=
  String.ofList (replaceFrom old.toList new.toList 0 text.toList)

/-- Writes a field name with its reserved characters escaped. -/
def encode (name : String) : String :=
  table.foldl (fun text (literal, form) => replaceAll literal form text) name

/-- Reads a written field name: every escaped form becomes its character. -/
def decode (text : String) : String :=
  table.foldl (fun text (literal, form) => replaceAll form literal text) text

end Pluck.Escape
