import Dossier.Database.Run
import Dossier.Sql.Query

/-!
# Statements by their text

`Database.execute` reads a text as a statement and does what it says: it looks up the tables and the columns by their names,
takes the values of the placeholders by their places, and decides every row by the expressions of the text.
-/

namespace Dossier

open Sql (Edit Expr OrderTerm Query Restriction Selection Target limits whole?)

/-- What the engine gives back: values for each row, a number, or the count of changed rows. -/
inductive EngineReply
  | rows (values : List (List Value))
  | number (n : Int)
  | changed (count : Nat)

/-- Fails with a complaint where there is nothing. -/
def demand (complaint : String) : Option α → Except EngineError α
  | some a => .ok a
  | none => .error (.failure complaint)

namespace Table

/-- Names of columns stand for the columns of the table. -/
def resolved (t : Table) (x : Expr) : Except EngineError Expr := demand "no such column" (x.resolve t.scope)

/-- Those of the rows for which a condition is true. -/
def sift (t : Table) (params : List Value) (rows : List Row) (x : Expr) : Except EngineError (List Row) := do
  Table.selectRaw { t with rows } (← t.resolved x) params

end Table

namespace Row

/-- What stands at a place. -/
def look (row : Row) (place : Place) : Value := row.column place.column

/-- The value of an expression for the row. -/
def valueOf (row : Row) (params : List Value) (x : Expr) : Except EngineError Value :=
  demand "malformed operand" (x.eval row.look params)

/-- The value of a document for the row. -/
def documentOf (row : Row) (params : List Value) (d : Edit) : Except EngineError Value :=
  demand "malformed JSON" (d.eval row.look params)

/-- The truth for the row of a condition that is given as a text; `none` is a fault of the engine. -/
def truthOf? (row : Row) (t : Table) (params : List Value) (text : String) : Option Truth := do
  let x ← whole? Sql.Grammar.expression text params.length
  (← x.resolve t.scope).holds row.look params

/-- The value for the row of a document that is given as a text; `none` is a fault of the engine. -/
def documentOf? (row : Row) (t : Table) (params : List Value) (text : String) : Option Value := do
  let d ← Edit.read? text params.length
  (← d.resolve t.scope).eval row.look params

/-- The row with a body and a time that are given as values. -/
def withValues (row : Row) : Value → Value → Except EngineError Row
  | .text body, .integer now => row.withBody body now
  | _, _ => .error (.failure "datatype mismatch")

end Row

/-! ## Choosing rows -/

namespace Sql

/-- The order of two rows by the values of the terms, the first one that tells them apart deciding. -/
def OrderTerm.orderAll : List OrderTerm → List Value → List Value → Ordering
  | term :: terms, a :: as, b :: bs =>
    let o := Value.order (term.key.collation?.getD .binary) a b
    (if term.descending then o.swap else o).then (orderAll terms as bs)
  | _, _, _ => .eq

namespace Selection

/-- A limit or a skip, which has to be an integer. -/
def pageNumber (params : List Value) (x : Expr) : Except EngineError Int :=
  match x.eval (fun _ => .null) params with
  | some (.integer n) => .ok n
  | _ => .error (.failure "datatype mismatch")

/-- The stretch of a list that the limit and the skip leave; a limit below 0 is none. -/
def page (s : Selection) (params : List Value) (rows : List Row) : Except EngineError (List Row) :=
  match s.limit with
  | none => .ok rows
  | some limit => do
    let n ← pageNumber params limit
    if n = 0 then return []
    let k ← match s.skip with
      | some skip => pageNumber params skip
      | none => pure 0
    let rest := rows.drop k.toNat
    return if n < 0 then rest else rest.take n.toNat

/-- The rows in order, equal ones as they stand. -/
def sorted (s : Selection) (t : Table) (params : List Value) (rows : List Row) : Except EngineError (List Row) := do
  if limits.orderTerms < s.order.length then throw (.failure "too many terms in ORDER BY clause")
  let keys ← s.order.mapM fun term => t.resolved term.key
  let valued ← rows.mapM fun row => do return (row, ← keys.mapM (row.valueOf params))
  return (valued.mergeSort fun a b => OrderTerm.orderAll s.order a.2 b.2 != .gt).map (·.1)

/-- The rows of the selection. -/
def run (s : Selection) (db : Database) (params : List Value) : Except EngineError (List Row) := do
  let t ← db.tableOf s.table
  let chosen ← s.condition.toList.foldlM (t.sift params) t.rows
  s.page params (← s.sorted t params chosen)

end Selection

/-- The rows that the restriction leaves. -/
def Restriction.keep (db : Database) (t : Table) (params : List Value) (rows : List Row) :
    Restriction → Except EngineError (List Row)
  | .numbered s => do
    let found ← s.run db params
    return rows.filter fun row => found.head?.any fun first => row.rowid = first.rowid
  | .condition x => t.sift params rows x
  | .unlike d => do
    let d ← demand "no such column" (d.resolve t.scope)
    rows.filterM fun row => do return !Expr.same .text .binary (row.column .data) (← row.documentOf params d)

/-- The rows that all restrictions leave. -/
def Target.run (target : Target) (db : Database) (params : List Value) : Except EngineError (List Row) := do
  let t ← db.tableOf target.table
  target.restrictions.foldlM (Restriction.keep db t params) t.rows

end Sql

/-! ## Statements -/

namespace Database

/-- Does what a statement says. -/
def perform (db : Database) (params : List Value) : Query → Except EngineError (EngineReply × Database)
  | .rows columns s => do
    let t ← db.tableOf s.table
    let columns ← columns.mapM t.resolved
    let values ← (← s.run db params).mapM fun row => columns.mapM (row.valueOf params)
    return (.rows values, db)
  | .count target => do return (.number (← target.run db params).length, db)
  | .firstCode code target => do
    let t ← db.tableOf target.table
    let code ← t.resolved code
    let codes ← (← target.run db params).mapM fun row => row.valueOf params code
    match codes.find? fun v => !v.isNull with
    | none => return (.number (-1), db)
    | some (.integer n) => return (.number n, db)
    | some _ => throw (.failure "datatype mismatch")
  | .update body time target => do
    let t ← db.tableOf target.table
    let body ← demand "no such column" (body.resolve t.scope)
    let time ← t.resolved time
    let (count, after) ← db.updateRows target.table fun _ => do
      (← target.run db params).mapM fun row => do
        return (row, ← row.withValues (← row.documentOf params body) (← row.valueOf params time))
    return (.changed count, after)
  | .delete target => do
    let rows ← target.run db params
    return (.changed rows.length, db.deleteRows target.table (rows.map Row.rowid))

/-- Does what a text says, with values for its placeholders. -/
def execute (db : Database) (text : String) (params : List Value) : Except EngineError (EngineReply × Database) := do
  db.perform params (← demand "syntax error" (Query.read? text params.length))

end Database

namespace Statement

/-- What the engine gives back for an answer: of rows the columns that the statement asks for. -/
def reply : {a : Answer} → Statement a → a.Carrier → EngineReply
  | _, fetch .., rows => .rows (rows.map fun r => [.text r.id, .text r.data.text])
  | .rows, _, rows => .rows (rows.map fun r => [.text r.id, .text r.data.text, .integer r.createdAt, .integer r.updatedAt])
  | .number, _, n => .number n
  | .changed, _, n => .changed n

end Statement

end Dossier
