/-!
# The manual

The texts that the command line shows about queries: an overview, and one text for each `Topic`.
-/

namespace Pluck

namespace Manual

/-- Lines of text, each ended by a line feed. -/
def textOfLines (lines : List String) : String :=
  String.join (lines.map (· ++ "\n"))

def overview : String :=
  textOfLines [
    "SUBSET DOCUMENTATION",
    "",
    "A subset query picks fields out of a JSON document by their dotted path and",
    "renames them in a new, flat object.",
    "",
    "DOCUMENTATION CATEGORIES",
    "",
    "  syntax            Paths, aliases, and joining several selections",
    "  escaping          Writing field names that contain ',', '=' or spaces",
    "  errors            Grammar errors and how missing fields are handled",
    "",
    "QUICK REFERENCE",
    "",
    "  a=b               Select field a, output it as b",
    "  a.b.c=x           Select a nested field",
    "  a=x,b.c=y         Several selections, each from the document root",
    "  (empty query)     The whole document, unchanged",
    "",
    "Run 'subset doc <category>' for detailed documentation."]

end Manual

inductive Topic
  | grammar
  | escaping
  /-- What becomes of queries that are wrong, and of paths that lead nowhere. -/
  | errors
  deriving Repr, DecidableEq

namespace Topic

/-- The topic with a name, in letters of either case. No letter outside ASCII has one of a name's letters as its
lower-case form, so that ASCII letters are the only ones to be changed. -/
def ofName? (name : String) : Option Topic :=
  match name.toLower with
  | "syntax" | "grammar" => some grammar
  | "escaping" | "escape" | "escapes" => some escaping
  | "errors" | "error" => some errors
  | _ => none

def unknownMessage (name : String) : String :=
  "Unknown category: '" ++ name ++ "'\nRun 'subset docs' to see available categories."

open Manual in
def text : Topic → String
  | grammar => textOfLines [
    "SYNTAX - Paths and Aliases",
    "",
    "GRAMMAR",
    "  expression := subset_spec ( ',' expression )?",
    "  subset_spec := field '=' alias",
    "               | field '.' subset_spec",
    "",
    "SELECTION",
    "  path=alias",
    "    Resolve the dotted path from the document root and write the value",
    "    under alias in the output object.",
    "",
    "    Example:",
    "      Input:  \x7b\"user\": \x7b\"id\": \"u1\", \"address\": \x7b\"city\": \"Oslo\"\x7d\x7d\x7d",
    "      Query:  user.id=id,user.address.city=town",
    "      Output: \x7b\"id\": \"u1\", \"town\": \"Oslo\"\x7d",
    "",
    "FIELD NAMES",
    "  A field name is everything up to the next '.', ',' or '='. Leading",
    "  whitespace is ignored; whitespace inside or after a name is kept.",
    "  An empty name (as in 'a..b=c') is legal and matches no field.",
    "",
    "DUPLICATE ALIASES",
    "  When two selections share an alias the later one wins.",
    "  Use --reject-duplicates to make this an error."]
  | escaping => textOfLines [
    "ESCAPING - Reserved Characters in Field Names",
    "",
    "  ','   is written as   %5C%2C",
    "  ' '   is written as   %20",
    "  '='   is written as   %5C%3D",
    "",
    "    Example:",
    "      Input:  \x7b\"a,b\": 1\x7d",
    "      Query:  a%5C%2Cb=x",
    "      Output: \x7b\"x\": 1\x7d",
    "",
    "  'subset encode <field>' prints the escaped form of a field name."]
  | errors => textOfLines [
    "ERRORS - Failures and Missing Fields",
    "",
    "GRAMMAR ERRORS",
    "  Unexpected end of input, expected FieldName     'a=' or 'a=b,'",
    "  Unexpected end of input, expected Assignment    'a' or 'a.b'",
    "  Unexpected token ..., expected Join             'a=b=c'",
    "",
    "  A grammar error fails the whole query; no partial output is returned.",
    "",
    "MISSING FIELDS",
    "  A selection whose path does not exist is dropped without an error.",
    "",
    "    Example:",
    "      Input:  \x7b\"user\": \x7b\"id\": \"u1\"\x7d\x7d",
    "      Query:  user.missing.x=x,user.id=id",
    "      Output: \x7b\"id\": \"u1\"\x7d",
    "",
    "  Descending into a value that is not an object (a string, a number, an",
    "  array) is dropped the same way. Use --strict-paths to make it an error."]

end Topic

end Pluck
