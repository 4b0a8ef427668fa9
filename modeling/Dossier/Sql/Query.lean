import Dossier.Sql.Grammar

/-!
# Statements of SQL

`Query.read?` reads the statements that choose, count, change and delete rows. The condition of a statement that changes
rows is a conjunction of `Restriction`s, one of which may be the number of the row that another selection comes to first.
An `Edit` is a document that the functions `json_remove` and `json_set` make; `Edit.tree?` gives it for a row. What is
not of these forms is refused.
-/

namespace Dossier.Sql

open Grammar Text

/-- What a text is read as, nothing standing after it, if it takes so many values. -/
def whole? (read : List Lexeme → Option (α × List Lexeme)) (text : String) (values : Nat) : Option α :=
  match lexemes? text with
  | none => none
  | some (ls, places) =>
    if places = values then
      match read ls with
      | some (a, []) => some a
      | _ => none
    else none

/-! ## Documents -/

/-- A document made of another one. `put` sets what a text is as a document, `write` sets a value. -/
inductive Edit
  | source (x : Expr)
  | remove (document : Edit) (path : Expr)
  | put (document : Edit) (path value : Expr)
  | write (document : Edit) (path value : Expr)

/-- A further argument of `json_set`: a path with a value, which may be a document. -/
structure Pair where
  path : Expr
  value : Expr
  isDocument : Bool

namespace Edit

/-- The document with a pair set in it. -/
def setPair (d : Edit) (p : Pair) : Edit := if p.isDocument then d.put p.path p.value else d.write p.path p.value

/-- The further arguments of a call, a comma before each, up to its end. -/
def paths : (fuel : Nat) → List Lexeme → Option (List Expr × List Lexeme)
  | 0, _ => none
  | _, .symbol ")" :: rest => some ([], rest)
  | fuel + 1, ls => do
    let (path, rest) ← expression (← takeSymbol "," ls)
    let (others, rest) ← paths fuel rest
    return (path :: others, rest)

/-- A value to set, or a document in a call of `json`. -/
def operand (path : Expr) (ls : List Lexeme) : Option (Pair × List Lexeme) :=
  match ls with
  | .word f :: .symbol "(" :: rest =>
    if foldCase f = "json" then do
      let (x, rest) ← expression rest
      return (⟨path, x, true⟩, ← takeSymbol ")" rest)
    else (expression ls).map fun (x, rest) => (⟨path, x, false⟩, rest)
  | _ => (expression ls).map fun (x, rest) => (⟨path, x, false⟩, rest)

/-- The further arguments of `json_set` up to its end. -/
def pairs : (fuel : Nat) → List Lexeme → Option (List Pair × List Lexeme)
  | 0, _ => none
  | _, .symbol ")" :: rest => some ([], rest)
  | fuel + 1, ls => do
    let (path, rest) ← expression (← takeSymbol "," ls)
    let (pair, rest) ← operand path (← takeSymbol "," rest)
    let (others, rest) ← pairs fuel rest
    return (pair :: others, rest)

/-- Reads a document off the front. -/
def read : (fuel : Nat) → List Lexeme → Option (Edit × List Lexeme)
  | 0, _ => none
  | fuel + 1, ls =>
    match ls with
    | .word f :: .symbol "(" :: rest =>
      if foldCase f = "json_remove" then do
        let (d, rest) ← read fuel rest
        let (paths, rest) ← paths rest.length rest
        if limits.arguments < 1 + paths.length then none else return (paths.foldl remove d, rest)
      else if foldCase f = "json_set" then do
        let (d, rest) ← read fuel rest
        let (pairs, rest) ← pairs rest.length rest
        if limits.arguments < 1 + 2 * pairs.length then none else return (pairs.foldl setPair d, rest)
      else (expression ls).map fun (x, rest) => (.source x, rest)
    | _ => (expression ls).map fun (x, rest) => (.source x, rest)

/-- The document that a text is, if it takes so many values. -/
def read? (text : String) (values : Nat) : Option Edit := whole? (fun ls => read ls.length ls) text values

/-- The document with its names replaced by places. -/
def resolve (scope : Scope) : Edit → Option Edit
  | source x => do return source (← x.resolve scope)
  | remove d path => do return remove (← d.resolve scope) (← path.resolve scope)
  | put d path x => do return put (← d.resolve scope) (← path.resolve scope) (← x.resolve scope)
  | write d path x => do return write (← d.resolve scope) (← path.resolve scope) (← x.resolve scope)

/-- The keys that a path leads along; other steps are left out. -/
def keys? (path : Value) : Option (List String) := do
  (← PathStep.parse (← path.text?)).mapM fun
    | .member name => some name
    | _ => none

variable (row : Place → Value) (params : List Value)

/-- The document for a row; `none` is a fault of the engine. -/
def tree? : Edit → Option Tree
  | source x => do Tree.read? (← (← x.eval row params).text?)
  | remove d path => do return (← d.tree?).remove (← keys? (← path.eval row params))
  | put d path x => do
    let t ← d.tree?
    return Tree.set (← Tree.read? (← (← x.eval row params).text?)) (← keys? (← path.eval row params)) t
  | write d path x => do
    let t ← d.tree?
    return Tree.set (.ofValue (← x.eval row params)) (← keys? (← path.eval row params)) t

/-- The value for a row: what is not changed stays as it is written. -/
def eval : Edit → Option Value
  | source x => x.eval row params
  | d => (d.tree? row params).map fun t => .text t.text

end Edit

/-! ## Clauses -/

/-- A term of an order. -/
structure OrderTerm where
  key : Expr
  descending : Bool

/-- The rows of a table for which a condition is true, in an order, and the stretch of them to give. -/
structure Selection where
  table : String
  condition : Option Expr
  order : List OrderTerm
  limit : Option Expr
  skip : Option Expr

/-- What is asked of a row: to have the number of the first row of a selection, a condition, or another text than a
document has. -/
inductive Restriction
  | numbered (s : Selection)
  | condition (x : Expr)
  | unlike (d : Edit)

/-- The rows of a table of which all restrictions hold. -/
structure Target where
  table : String
  restrictions : List Restriction

/-- The words are at the front. -/
def takeWords : List String → List Lexeme → Option (List Lexeme)
  | [], ls => some ls
  | w :: ws, ls => (takeWord w ls).bind (takeWords ws)

/-- A name in double quotes. -/
def tableName : List Lexeme → Option (String × List Lexeme)
  | .quoted name true :: rest => some (name, rest)
  | _ => none

/-- An expression after a word, if the word is there. -/
def clause (w : String) (ls : List Lexeme) : Option (Option Expr × List Lexeme) :=
  if atWord w ls then (expression (ls.drop 1)).map fun (x, rest) => (some x, rest) else some (none, ls)

/-- The terms of an order, with commas between them. -/
def orderTerms : (fuel : Nat) → List Lexeme → Option (List OrderTerm × List Lexeme)
  | 0, _ => none
  | fuel + 1, ls => do
    let (key, rest) ← expression ls
    let descending := atWord "desc" rest
    let rest := if descending || atWord "asc" rest then rest.drop 1 else rest
    match rest with
    | .symbol "," :: rest =>
      let (others, rest) ← orderTerms fuel rest
      return (⟨key, descending⟩ :: others, rest)
    | rest => return ([⟨key, descending⟩], rest)

/-- The order, if there is one. -/
def orderClause (ls : List Lexeme) : Option (List OrderTerm × List Lexeme) :=
  match takeWords ["order", "by"] ls with
  | some rest => orderTerms rest.length rest
  | none => some ([], ls)

/-- A limit, and after it a skip, if they are there. -/
def pageClause (ls : List Lexeme) : Option (Option Expr × Option Expr × List Lexeme) := do
  let (limit, rest) ← clause "limit" ls
  let (skip, rest) ← if limit.isSome then clause "offset" rest else some (none, rest)
  return (limit, skip, rest)

/-- What stands after `FROM` in a selection. -/
def Selection.read (ls : List Lexeme) : Option (Selection × List Lexeme) := do
  let (table, rest) ← tableName ls
  let (condition, rest) ← clause "where" rest
  let (order, rest) ← orderClause rest
  let (limit, skip, rest) ← pageClause rest
  return (⟨table, condition, order, limit, skip⟩, rest)

namespace Restriction

/-- `rowid = (SELECT rowid FROM`, up to which the number of a row is given by a selection. -/
def lookup? (ls : List Lexeme) : Option (List Lexeme) := do
  let rest ← takeSymbol "(" (← takeSymbol "=" (← takeWord "rowid" ls))
  takeWords ["select", "rowid", "from"] rest

/-- Reads a restriction whose operators bind with at least the given strength. -/
def read (least : Nat) (ls : List Lexeme) : Option (Restriction × List Lexeme) :=
  match lookup? ls with
  | some inner => do
    let (s, rest) ← Selection.read inner
    return (numbered s, ← takeSymbol ")" rest)
  | none =>
    match takeWords ["data", "is", "not"] ls with
    | some inner => (Edit.read inner.length inner).map fun (d, rest) => (unlike d, rest)
    | none =>
      match takeSymbol "(" ls with
      | some inner => do
        let (x, rest) ← expression inner
        return (condition x, ← takeSymbol ")" rest)
      | none => (expr (4 * ls.length + 4) least ls).map fun (x, rest) => (condition x, rest)

/-- Restrictions with `AND` between them; in the first one operators of every strength may stand. -/
def readAll : (fuel : Nat) → (least : Nat) → List Lexeme → Option (List Restriction × List Lexeme)
  | 0, _, _ => none
  | fuel + 1, least, ls => do
    let (r, rest) ← read least ls
    if atWord "and" rest then
      let (others, rest) ← readAll fuel 3 (rest.drop 1)
      return (r :: others, rest)
    else return ([r], rest)

end Restriction

/-- The rows of a table for which the restrictions after `WHERE` hold, if there are any. -/
def Target.readIn (table : String) (ls : List Lexeme) : Option (Target × List Lexeme) :=
  if atWord "where" ls then (Restriction.readAll ls.length 0 (ls.drop 1)).map fun (rs, rest) => (⟨table, rs⟩, rest)
  else some (⟨table, []⟩, ls)

/-- A table and the restrictions on its rows. -/
def Target.read (ls : List Lexeme) : Option (Target × List Lexeme) := do
  let (table, rest) ← tableName ls
  readIn table rest

/-! ## Statements -/

/-- A statement about the rows of a table. `firstCode` gives the first value of an expression, in the order of the rows,
that is not null, or -1. -/
inductive Query
  | rows (columns : List Expr) (s : Selection)
  | count (t : Target)
  | firstCode (code : Expr) (t : Target)
  | update (body : Edit) (time : Expr) (t : Target)
  | delete (t : Target)

namespace Query

/-- Expressions with commas between them. -/
def columns : (fuel : Nat) → List Lexeme → Option (List Expr × List Lexeme)
  | 0, _ => none
  | fuel + 1, ls => do
    let (x, rest) ← expression ls
    match rest with
    | .symbol "," :: rest =>
      let (others, rest) ← columns fuel rest
      return (x :: others, rest)
    | rest => return ([x], rest)

/-- What stands around the rows among which a code is looked for: in front of the code, between it and the table, and
after the restrictions. -/
def codeFront : List Lexeme :=
  [.word "COALESCE", .symbol "(", .symbol "(", .word "SELECT", .word "code", .word "FROM", .symbol "(", .word "SELECT"]
def codeMiddle : List Lexeme :=
  [.word "AS", .word "code", .symbol ",", .word "rowid", .word "AS", .word "position", .word "FROM"]
def codeBack : List Lexeme :=
  [.symbol ")", .word "WHERE", .word "code", .word "IS", .word "NOT", .word "NULL", .word "ORDER", .word "BY",
    .word "position", .word "ASC", .word "LIMIT", .whole 1, .symbol ")", .symbol ",", .symbol "-", .whole 1, .symbol ")"]

/-- Drops the lexemes at the front. -/
def takeAll : List Lexeme → List Lexeme → Option (List Lexeme)
  | [], ls => some ls
  | l :: front, l' :: ls => if l == l' then takeAll front ls else none
  | _ :: _, [] => none

/-- What stands after `SELECT`. -/
def readSelect (ls : List Lexeme) : Option (Query × List Lexeme) :=
  match takeAll [.word "COUNT", .symbol "(", .symbol "*", .symbol ")", .word "FROM"] ls with
  | some rest => (Target.read rest).map fun (t, rest) => (count t, rest)
  | none =>
    match takeAll codeFront ls with
    | some rest => do
      let (code, rest) ← expression rest
      let (t, rest) ← Target.read (← takeAll codeMiddle rest)
      return (firstCode code t, ← takeAll codeBack rest)
    | none => do
      let (xs, rest) ← columns ls.length ls
      let (s, rest) ← Selection.read (← takeWord "from" rest)
      return (rows xs s, rest)

/-- What stands after `UPDATE`. -/
def readUpdate (ls : List Lexeme) : Option (Query × List Lexeme) := do
  let (table, rest) ← tableName ls
  let rest ← takeSymbol "=" (← takeWords ["set", "data"] rest)
  let (body, rest) ← Edit.read rest.length rest
  let rest ← takeSymbol "=" (← takeWord "updated_at" (← takeSymbol "," rest))
  let (time, rest) ← expression rest
  let (t, rest) ← Target.readIn table rest
  return (update body time t, rest)

/-- What stands after `DELETE`. -/
def readDelete (ls : List Lexeme) : Option (Query × List Lexeme) := do
  let (t, rest) ← Target.read (← takeWord "from" ls)
  return (delete t, rest)

/-- Reads a statement. -/
def read : List Lexeme → Option (Query × List Lexeme)
  | .word w :: rest =>
    match foldCase w with
    | "select" => readSelect rest
    | "update" => readUpdate rest
    | "delete" => readDelete rest
    | _ => none
  | _ => none

/-- The statement that a text is, if it takes so many values. -/
def read? (text : String) (values : Nat) : Option Query := whole? read text values

end Query

end Dossier.Sql
