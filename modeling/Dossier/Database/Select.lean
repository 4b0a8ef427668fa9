import Dossier.Database.Basic
import Dossier.Listing
import Dossier.Raw.Predicate
import Dossier.Statement

/-!
# Choosing rows

Which rows a statement is about, in which order, and which stretch of them is given. Rows are in
insertion order unless a listing says otherwise, and equal rows of a listing keep that order.
-/

namespace Dossier

open Sql (limits)

namespace SortKey

/-- The order of two rows under the key. -/
def order (r : Resolver) (key : SortKey) (a b : Row) : Ordering :=
  let o := Value.order .binary (a.read (r.operand key.field)) (b.read (r.operand key.field))
  match key.direction with
  | .ascending => o
  | .descending => o.swap

/-- The order of two rows under keys, the first one that tells them apart deciding. -/
def orderAll (r : Resolver) : List SortKey → Row → Row → Ordering
  | [], _, _ => .eq
  | key :: rest, a, b => (key.order r a b).then (orderAll r rest a b)

end SortKey

namespace Listing

/-- The greatest limit or skip that the engine takes. -/
def pageLimit : Nat := 0x7fffffffffffffff

/-- The stretch of a list that the limit and the skip leave. -/
def page (l : Listing) (rows : List α) : Except EngineError (List α) :=
  let tooGreat := fun (n : Nat) => decide (pageLimit < n)
  if l.limit.any tooGreat then .error (.failure "datatype mismatch")
  else if l.limit = some 0 then .ok []
  else if l.skip.any tooGreat then .error (.failure "datatype mismatch")
  else
    let rest := rows.drop (l.skip.getD 0)
    .ok (match l.limit with
      | some n => rest.take n
      | none => rest)

/-- The rows in the order of the keys, equal ones in insertion order. -/
def sorted (l : Listing) (r : Resolver) (rows : List Row) : List Row :=
  rows.mergeSort fun a b => SortKey.orderAll r l.keys a b != .gt

/-- The rows in order, and of them the stretch to give. The engine orders by no more than so many terms, the last of which
is the insertion order. -/
def apply (l : Listing) (r : Resolver) (rows : List Row) : Except EngineError (List Row) :=
  if limits.orderTerms < l.keys.length + 1 then .error (.failure "too many terms in ORDER BY clause")
  else l.page (l.sorted r rows)

end Listing

namespace Table

/-- The rows that a predicate holds of, in insertion order. -/
def select (t : Table) (p : Predicate) : List Row := t.rows.filter fun row => (p.holds row.read).isTrue

/-- The matching rows that a statement is about. -/
def targets (t : Table) (p : Predicate) : Cardinality → List Row
  | .many => t.select p
  | .one => (t.select p).take 1

/-- The rows that a condition of the caller holds of. -/
def selectRaw (t : Table) (condition : Sql.Expr) (params : List Value) :
    Except EngineError (List Row) :=
  t.rows.filterM fun row =>
    match condition.holds (fun place => row.column place.column) params with
    | some truth => .ok truth.isTrue
    | none => .error (.failure "malformed operand")

/-- The rows that a raw predicate gives with a listing. -/
def findRaw (t : Table) (r : Resolver) (p : RawPredicate) (l : Listing) :
    Except EngineError (List Row) := do
  match p.selection? t.scope (l.text r) with
  | none => throw (.failure "syntax error")
  | some s =>
    let rows ← match s.condition with
      | some e => t.selectRaw e p.params
      | none => pure t.rows
    if s.listed then l.apply r rows else return rows

/-- The number of the first guard that holds of a body. -/
def guardCode? (guards : List Guard) (body : Tree) : Option Nat :=
  (guards.findIdx? fun g => (g.holds body).isTrue)

/-- The number of the first guard that the earliest row violates that violates any, or -1. -/
def guardCode (guards : List Guard) (rows : List Row) : Int :=
  match rows.findSome? fun row => guardCode? guards row.data.tree with
  | some n => n
  | none => -1

end Table

end Dossier
