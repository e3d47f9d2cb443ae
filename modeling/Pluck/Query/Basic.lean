/-!
# Queries

A query lists clauses. Each clause has a path into a document and the key under which the value at the end of the path
is collected. The printed form puts full stops between the names of a path and commas between clauses, and it does not
escape anything.
-/

namespace Pluck

structure Clause where
  /-- The names that lead from the root to the value, outermost first. -/
  path : List String
  key : String
  deriving Repr, DecidableEq

structure Query where
  clauses : List Clause
  deriving Repr, DecidableEq

def Clause.pathText (clause : Clause) : String :=
  ".".intercalate clause.path

def Clause.render (clause : Clause) : String :=
  clause.pathText ++ "=" ++ clause.key

namespace Query

def render (query : Query) : String :=
  ",".intercalate (query.clauses.map Clause.render)

def keys (query : Query) : List String :=
  query.clauses.map Clause.key

end Query

end Pluck
