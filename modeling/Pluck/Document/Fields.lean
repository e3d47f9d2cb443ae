/-!
# The fields of an object

An object has at most one value for each name, and the order in which its fields were written does not matter. `Fields`
lists them in increasing order of their names, by code points. `insert` keeps the order and replaces the value of a name
that is there already.
-/

namespace Pluck

abbrev Fields (α : Type) := List (String × α)

namespace Fields

variable {α : Type}

def insert (name : String) (value : α) : Fields α → Fields α
  | [] => [(name, value)]
  | (other, old) :: rest =>
    if name < other then (name, value) :: (other, old) :: rest
    else if name = other then (name, value) :: rest
    else (other, old) :: insert name value rest

/-- The fields of a list of entries, of which a later one replaces an earlier one of the same name. -/
def ofList (entries : List (String × α)) : Fields α :=
  entries.foldl (fun fields (name, value) => insert name value fields) []

/-- The names increase from each field to the next. -/
def Sorted (fields : Fields α) : Prop :=
  fields.Pairwise fun field later => field.1 < later.1

end Fields

end Pluck
