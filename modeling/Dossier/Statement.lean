import Dossier.Collection.Name
import Dossier.Filter.Term
import Dossier.Listing
import Dossier.Raw.Predicate
import Dossier.Update.InPlace

/-!
# Statements

A `Statement` is one request to the engine about the documents of a collection, indexed by what it
is answered with. `Statement.text` is its SQL and `Statement.params` the values of the placeholders
of that text from left to right. A statement on one row means the first match in insertion order. The
engine refuses a statement that is past one of its limits (`Statement.isWithinLimits`).
-/

namespace Dossier

open Sql (limits)

/-- What a statement is answered with: rows, a number, or the count of changed rows. -/
inductive Answer
  | rows
  | number
  | changed
deriving DecidableEq, Repr

/-- How many of the matching rows a statement is about. -/
inductive Cardinality
  | one
  | many
deriving DecidableEq, Repr

/-- A request to the engine. `fetch` reads the rows that an update is about to overwrite, `guard` asks
for the number of the first guard that the earliest such row violates, or -1. -/
inductive Statement : Answer → Type
  | find (filter : Predicate) (listing : Listing) : Statement .rows
  | findRaw (filter : RawPredicate) (listing : Listing) : Statement .rows
  | fetch (filter : Predicate) (cardinality : Cardinality) : Statement .rows
  | count (filter : Predicate) : Statement .number
  | countTargets (filter : Predicate) (cardinality : Cardinality) : Statement .number
  | guard (guards : List Guard) (filter : Predicate) (cardinality : Cardinality) : Statement .number
  | change (changes : Changes) (filter : Predicate) (cardinality : Cardinality) (now : Int) :
    Statement .changed
  | overwrite (id body : String) (now : Int) : Statement .changed
  | insert (id body : String) (now : Int) : Statement .changed
  | delete (filter : Predicate) (cardinality : Cardinality) : Statement .changed

/-- The columns of a document. -/
def documentColumns : String := commaList systemColumns

/-- The rows of a table that a mutation is about, as a `WHERE` clause. -/
def targetText (table : CollectionName) (filter : Predicate) : Cardinality → String
  | .many => filter.whereText
  | .one =>
    " WHERE rowid = (SELECT rowid FROM " ++ table.quoted ++ filter.whereText
      ++ " ORDER BY rowid ASC LIMIT 1)"

/-- The arms of the search for a violated guard, each with the number of its guard. -/
def guardArms (guards : List Guard) : String :=
  joinWith " " (guards.zipIdx.map fun g => "WHEN " ++ g.1.text ++ " THEN " ++ Listing.natText g.2)

/-- The selection of an update that leaves unchanged rows alone. -/
def changedText (table : CollectionName) (changes : Changes) (filter : Predicate)
    (cardinality : Cardinality) : String :=
  let changed := bodyColumn ++ " IS NOT " ++ changes.expressionText
  match cardinality with
  | .many =>
    if filter.isEmpty then " WHERE " ++ changed
    else " WHERE (" ++ filter.text ++ ") AND " ++ changed
  | .one => targetText table filter .one ++ " AND " ++ changed

namespace Statement

/-- The SQL of a statement. -/
def text (table : CollectionName) (r : Resolver) : {a : Answer} → Statement a → String
  | _, find filter listing =>
    "SELECT " ++ documentColumns ++ " FROM " ++ table.quoted ++ filter.whereText ++ listing.text r
  | _, findRaw filter listing =>
    "SELECT " ++ documentColumns ++ " FROM " ++ table.quoted ++ filter.whereText ++ listing.text r
  | _, fetch filter cardinality =>
    "SELECT id, data FROM " ++ table.quoted ++ filter.whereText ++ " ORDER BY rowid ASC"
      ++ (match cardinality with | .one => " LIMIT 1" | .many => "")
  | _, count filter => "SELECT COUNT(*) FROM " ++ table.quoted ++ filter.whereText
  | _, countTargets filter cardinality =>
    "SELECT COUNT(*) FROM " ++ table.quoted ++ targetText table filter cardinality
  | _, guard guards filter cardinality =>
    "SELECT COALESCE((SELECT code FROM (SELECT CASE " ++ guardArms guards
      ++ " END AS code, rowid AS position FROM " ++ table.quoted
      ++ targetText table filter cardinality
      ++ ") WHERE code IS NOT NULL ORDER BY position ASC LIMIT 1), -1)"
  | _, change changes filter cardinality _ =>
    "UPDATE " ++ table.quoted ++ " SET data = " ++ changes.expressionText ++ ", updated_at = ?"
      ++ changedText table changes filter cardinality
  | _, overwrite .. => "UPDATE " ++ table.quoted ++ " SET data = ?, updated_at = ? WHERE id = ?"
  | _, insert .. =>
    "INSERT INTO " ++ table.quoted ++ " (" ++ documentColumns ++ ") VALUES (?, ?, ?, ?)"
  | _, delete filter cardinality =>
    "DELETE FROM " ++ table.quoted ++ targetText table filter cardinality

/-- The values of the placeholders from left to right. -/
def params : {a : Answer} → Statement a → List Value
  | _, find filter _ => filter.params
  | _, findRaw filter _ => filter.params
  | _, fetch filter _ => filter.params
  | _, count filter => filter.params
  | _, countTargets filter _ => filter.params
  | _, guard guards filter _ => guards.flatMap Guard.params ++ filter.params
  | _, change changes filter _ now =>
    changes.expressionParams ++ [.integer now] ++ filter.params ++ changes.expressionParams
  | _, overwrite id body now => [.text body, .integer now, .text id]
  | _, insert id body now => [.text id, .text body, .integer now, .integer now]
  | _, delete filter _ => filter.params

/-- The filter by which a statement chooses its rows. -/
def filter : {a : Answer} → Statement a → Predicate
  | _, find filter _ | _, fetch filter _ | _, count filter | _, countTargets filter _ | _, guard _ filter _
  | _, change _ filter _ _ | _, delete filter _ => filter
  | _, findRaw .. | _, overwrite .. | _, insert .. => []

/-- The depth of the choice of a mutation's rows: that of a search inside an expression counts twice. -/
def targetDepth (filter : Predicate) : Cardinality → Nat
  | .many => filter.depth
  | .one => 2 * filter.depth + 2

/-- The depth that the engine finds when it has read the statement. -/
def depth : {a : Answer} → Statement a → Nat
  | _, find filter _ | _, fetch filter _ | _, count filter => filter.depth
  | _, countTargets filter cardinality | _, delete filter cardinality => targetDepth filter cardinality
  | _, guard _ filter cardinality => targetDepth filter cardinality + 4
  | _, change _ filter cardinality _ => targetDepth filter cardinality + 1
  | _, findRaw .. | _, overwrite .. | _, insert .. => 1

/-- The most arguments of a function. -/
def arguments : {a : Answer} → Statement a → Nat
  | _, change changes _ _ _ => max (1 + 2 * changes.assignments.length) (1 + changes.unset.length)
  | _, _ => 2

/-- The engine takes the statement. -/
def isWithinLimits {a : Answer} (s : Statement a) : Bool :=
  s.filter.spans.all (fun span => span.depth ≤ limits.depth) && s.depth ≤ limits.depth
    && s.arguments ≤ limits.arguments && s.params.length ≤ limits.values

/-- The search for a violated guard, if there are guards. -/
def guard? (guards : List Guard) (filter : Predicate) (cardinality : Cardinality) :
    Option (Statement .number) :=
  if guards.isEmpty then none else some (guard guards filter cardinality)

end Statement

end Dossier
