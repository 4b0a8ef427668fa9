/-!
# Limits of the engine

How large a statement, what it works with, and a document may be. The numbers are those of an engine that has not
been told others.
-/

namespace Dossier.Sql

/-- The limits of an engine: how deep an expression is, how many arguments a function has, how many values a statement
takes, by how many terms it orders, how many bytes a pattern has, and how many containers of a document stand in each
other. -/
structure Limits where
  depth : Nat
  arguments : Nat
  values : Nat
  orderTerms : Nat
  patternBytes : Nat
  documentDepth : Nat

/-- The limits that the engine has. -/
def limits : Limits where
  depth := 1000
  arguments := 1000
  values := 32766
  orderTerms := 2000
  patternBytes := 50000
  documentDepth := 1000

end Dossier.Sql
