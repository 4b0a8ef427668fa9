import Dossier.Collection.Name
import Dossier.Database.Basic

/-!
# Changes of the schema

Making the table of a collection, adding a column, making an index, and dropping and making
triggers. What exists already is left alone; a table and an index cannot share a name. A unique
index is refused when two rows hold equal values.
-/

namespace Dossier

open Text

namespace Index

/-- Two rows hold equal values in all columns; null equals nothing. -/
def sameKey (i : Index) (r s : Row) : Bool :=
  i.columns.all fun c =>
    Value.test .eq .none .binary (r.promotedValue c) (s.promotedValue c) == some true

/-- No two of the rows share a key. -/
def separates (i : Index) : List Row → Bool
  | [] => true
  | r :: rest => !rest.any (i.sameKey r) && separates i rest

/-- The complaint about a repeated key. -/
def complaint (i : Index) (table : String) : EngineError :=
  .constraint ("UNIQUE constraint failed: " ++ joinWith ", " (i.columns.map fun c => table ++ "." ++ c))

end Index

namespace Database

/-- The table of a name; the engine refuses a statement about any other. -/
def tableOf (db : Database) (name : String) : Except EngineError Table :=
  match db.table? name with
  | some t => .ok t
  | none => .error (.failure ("no such table: " ++ name))

/-- Makes the table of a collection unless it exists. -/
def createTable (db : Database) (name : CollectionName) : Except EngineError Database :=
  if (db.table? name.text).isSome then .ok db
  else match db.index? name.text with
    | some _ => .error (.failure ("there is already an index named " ++ name.text))
    | none => .ok { db with tables := db.tables ++ [⟨name.text, [], []⟩] }

/-- Adds a column, null in every row. -/
def addColumn (db : Database) (table column : String) : Except EngineError Database := do
  let t ← db.tableOf table
  if t.hasColumn column then throw (.failure ("duplicate column name: " ++ column))
  return db.mapTable table fun t => { t with columns := t.columns ++ [column] }

/-- Makes an index unless there is one of its name, on whatever table. -/
def createIndex (db : Database) (i : Index) : Except EngineError Database := do
  let t ← db.tableOf i.table
  if (db.table? i.name).isSome then
    throw (.failure ("there is already a table named " ++ i.name))
  if (db.index? i.name).isSome then return db
  if i.unique && !i.separates t.rows then throw (i.complaint t.name)
  return { db with indexes := db.indexes ++ [i] }

/-- Drops the trigger of a name, on whatever table, if there is one. -/
def dropTrigger (db : Database) (name : String) : Database :=
  { db with triggers := db.triggers.filter fun t => !sameName t.name name }

/-- Makes a trigger. -/
def createTrigger (db : Database) (trigger : Trigger) : Except EngineError Database := do
  let _ ← db.tableOf trigger.table
  if db.triggers.any fun t => sameName t.name trigger.name then
    throw (.failure ("trigger " ++ trigger.name ++ " already exists"))
  return { db with triggers := trigger :: db.triggers }

/-- Makes a trigger in the place of the one of its name. -/
def replaceTriggers (db : Database) (triggers : List Trigger) : Except EngineError Database :=
  triggers.foldlM createTrigger (triggers.foldl (fun db t => db.dropTrigger t.name) db)

end Database

end Dossier
