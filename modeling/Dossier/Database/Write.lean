import Dossier.Database.Schema

/-!
# Writing rows

A write of a row first runs the checks that wait for it, then changes the row, then runs the copies
that keep the promoted columns equal to the body. Triggers run newest first. A write that fails
leaves the database as it was: each of these functions gives the changed database or an error.
-/

namespace Dossier

open Text

/-- What happens to a row. -/
inductive RowChange
  | insert
  | bodyUpdate
  | columnUpdate
deriving DecidableEq, Repr

/-- The trigger waits for the change. -/
def TriggerEvent.awaits : TriggerEvent → RowChange → Bool
  | insert, .insert => true
  | bodyUpdate, .bodyUpdate => true
  | anyUpdate, .bodyUpdate | anyUpdate, .columnUpdate => true
  | _, _ => false

/-- The row of a place when a trigger runs. -/
def placeIn (current previous : Row) (place : Place) : Value :=
  match place.version with
  | .current => current.column place.column
  | .previous => previous.column place.column

namespace Trigger

/-- The trigger with the names of its condition resolved. -/
def prepare (t : Table) (trigger : Trigger) : Except EngineError Trigger :=
  match trigger.action with
  | .check violation message =>
    match violation.resolve (t.triggerScope trigger.event) with
    | some resolved => .ok { trigger with action := .check resolved message }
    | none => .error (.failure "no such column")
  | _ => .ok trigger

/-- What the trigger does before a change. -/
def before (read : Place → Value) (trigger : Trigger) : Except EngineError Unit :=
  match trigger.action with
  | .check violation message =>
    match violation.holds read [] with
    | none => .error (.failure "malformed operand")
    | some truth => if truth.isTrue then .error (.constraint message) else .ok ()
  | .refuse message => .error (.constraint message)
  | .copy .. => .ok ()

end Trigger

namespace Database

/-- The triggers that wait for a change of a table, ready to run. -/
def ready (db : Database) (t : Table) (change : RowChange) : Except EngineError (List Trigger) :=
  ((db.triggersOn t.name).filter fun trigger => trigger.event.awaits change).mapM (Trigger.prepare t)

/-- Puts a row in the place of the one with its number. -/
def putRow (db : Database) (table : String) (row : Row) : Database :=
  db.mapTable table fun t =>
    { t with rows := t.rows.map fun r => if r.rowid = row.rowid then row else r }

/-- The complaint of the first unique index that the row would violate. -/
def conflict? (db : Database) (t : Table) (row : Row) : Option EngineError :=
  ((db.indexesOn t.name).find? fun i =>
    i.unique && t.rows.any fun r => r.rowid ≠ row.rowid && i.sameKey r row).map
    (Index.complaint · t.name)

/-- Writes a promoted column of the row with a number. -/
def setColumn (db : Database) (table : String) (rowid : Int) (column : String) (v : Value) :
    Except EngineError Database := do
  let t ← db.tableOf table
  let triggers ← db.ready t .columnUpdate
  match t.rows.find? fun r => r.rowid = rowid with
  | none => return db
  | some row =>
    triggers.forM (Trigger.before (placeIn row row))
    let row := row.setPromoted column v
    match db.conflict? t row with
    | some e => throw e
    | none => return db.putRow table row

/-- What a trigger does after a row has been written. -/
def after (row : Row) (db : Database) (trigger : Trigger) : Except EngineError Database :=
  match trigger.action with
  | .copy path column => db.setColumn trigger.table row.rowid column (row.data.extract path)
  | _ => .ok db

/-- The body of a text that must be JSON. -/
def validBody (text : String) : Except EngineError Body :=
  match Body.ofText? text with
  | some b => .ok b
  | none => .error (.constraint "CHECK constraint failed: json_valid(data)")

/-- The row number that a trigger sees before a row is inserted. -/
def unassigned : Int := -1

/-- Inserts a document. -/
def insertRow (db : Database) (table id body : String) (now : Int) :
    Except EngineError Database := do
  let t ← db.tableOf table
  let triggers ← db.ready t .insert
  let row : Row := ⟨t.nextRowid, id, ← validBody body, now, now, []⟩
  triggers.forM (Trigger.before (placeIn { row with rowid := unassigned } row))
  if t.rows.any fun r => r.id = id then
    throw (.constraint ("UNIQUE constraint failed: " ++ t.name ++ ".id"))
  let db := db.mapTable table fun t => { t with rows := t.rows ++ [row] }
  triggers.foldlM (after row) db

/-- Puts a new state of a row in the place of the old one, its body counting as written. -/
def updateRow (triggers : List Trigger) (table : String) (db : Database) (change : Row × Row) :
    Except EngineError Database := do
  let (old, new) := change
  triggers.forM (Trigger.before (placeIn new old))
  triggers.foldlM (after new) (db.putRow table new)

/-- Changes the bodies of rows, one after another. -/
def updateRows (db : Database) (table : String) (changes : Table → Except EngineError (List (Row × Row))) :
    Except EngineError (Nat × Database) := do
  let t ← db.tableOf table
  let triggers ← db.ready t .bodyUpdate
  let changes ← changes t
  return (changes.length, ← changes.foldlM (updateRow triggers table) db)

/-- Takes rows out. -/
def deleteRows (db : Database) (table : String) (rowids : List Int) : Database :=
  db.mapTable table fun t => { t with rows := t.rows.filter fun r => !rowids.contains r.rowid }

/-- Writes a promoted column of every row, one after another. -/
def fillColumn (db : Database) (table column : String) (path : FieldPath) :
    Except EngineError Database := do
  let t ← db.tableOf table
  t.rows.foldlM (fun db r => db.setColumn table r.rowid column (r.data.extract path)) db

end Database

end Dossier
