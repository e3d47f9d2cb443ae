/-!
# Blank characters

The characters with the Unicode property White_Space. Leading blanks of a field name are dropped, and the class `\s` of
a pattern holds exactly these characters.
-/

namespace Pluck.Text

/-- First and last character of each run of blanks, in increasing order. -/
def blankRanges : List (Char × Char) :=
  [('\t', '\r'), (' ', ' '), ('\u0085', '\u0085'), ('\u00a0', '\u00a0'), ('\u1680', '\u1680'),
    ('\u2000', '\u200a'), ('\u2028', '\u2029'), ('\u202f', '\u202f'), ('\u205f', '\u205f'), ('\u3000', '\u3000')]

def isBlank (c : Char) : Bool :=
  blankRanges.any fun (first, last) => first ≤ c && c ≤ last

end Pluck.Text
