import Dossier.Database.Row

/-!
# The database

A `Database` has the tables of the collections with their rows in insertion order, the triggers and
indexes on them, and the two registries of the store: the promoted paths and the check constraints.
Names of tables, columns, triggers and indexes are compared without the case of ASCII letters, the
collection names in the registries exactly. Indexes and tables share their names, triggers have
names of their own; all are names of the whole database.
-/

namespace Dossier

open Text

/-- A table of documents: the columns beyond those of every table, and the rows. -/
structure Table where
  name : String
  columns : List String
  rows : List Row

/-- What a trigger waits for. -/
inductive TriggerEvent
  | insert
  | bodyUpdate
  | anyUpdate
deriving DecidableEq, Repr

/-- What a trigger does. A copy runs after the change, the others before it. -/
inductive TriggerAction
  | copy (path : FieldPath) (column : String)
  | check (violation : Sql.Expr) (message : String)
  | refuse (message : String)

/-- A trigger on a table. -/
structure Trigger where
  name : String
  table : String
  event : TriggerEvent
  action : TriggerAction

/-- An index on columns of a table. -/
structure Index where
  name : String
  table : String
  columns : List String
  unique : Bool

/-- A promoted path of a collection, in the registry. -/
structure Promotion where
  collection : String
  path : FieldPath
  column : String
  unique : Bool
  createdAt : Int
  named : column = path.column

/-- A check constraint of a collection, in the registry. -/
structure CheckEntry where
  collection : String
  name : String
  path : FieldPath
  expression : String
  createdAt : Int

/-- A database; the newest trigger stands first. -/
structure Database where
  version : Int
  tables : List Table
  triggers : List Trigger
  indexes : List Index
  promotions : List Promotion
  checks : List CheckEntry

/-- What the engine says when it does not carry out a statement. -/
inductive EngineError
  | constraint (message : String)
  | failure (message : String)
deriving DecidableEq, Repr

namespace Table

/-- The column of a name, under the name it was made with. -/
def column? (t : Table) (name : String) : Option Column :=
  if sameName name "id" then some .id
  else if sameName name "data" then some .data
  else if sameName name "created_at" then some .createdAt
  else if sameName name "updated_at" then some .updatedAt
  else match t.columns.find? (sameName name) with
    | some made => some (.promoted made)
    | none =>
      if ["rowid", "_rowid_", "oid"].any (sameName name) then some .rowid else none

/-- The table has a column of the name. -/
def hasColumn (t : Table) (name : String) : Bool :=
  (systemColumns ++ t.columns).any (sameName name)

/-- The number of a new row: one past the greatest. -/
def nextRowid (t : Table) : Int := (t.rows.map Row.rowid).foldl max 0 + 1

/-- The names of a statement that reads the table. -/
def scope (t : Table) : Scope := fun qualifier name =>
  if qualifier.all (sameName t.name) then (t.column? name).map (⟨.current, ·⟩) else none

/-- The names of a trigger's condition: `NEW` is the row to be, `OLD` the row before a change. -/
def triggerScope (t : Table) (event : TriggerEvent) : Scope := fun qualifier name =>
  match qualifier with
  | none => none
  | some q =>
    if sameName q "new" then (t.column? name).map (⟨.current, ·⟩)
    else if sameName q "old" && event != .insert then (t.column? name).map (⟨.previous, ·⟩)
    else none

end Table

namespace Database

/-- The version of the store's own tables. -/
def currentVersion : Int := 1

/-- A database without collections. -/
def empty : Database := ⟨currentVersion, [], [], [], [], []⟩

/-- The table of a name. -/
def table? (db : Database) (name : String) : Option Table :=
  db.tables.find? fun t => sameName t.name name

/-- The names of the tables. -/
def tableNames (db : Database) : List String := db.tables.map Table.name

/-- The names of all that the schema holds: tables with their columns, triggers and indexes. -/
def schema (db : Database) : List (String × List String) × List String × List String :=
  (db.tables.map fun t => (t.name, t.columns), db.triggers.map Trigger.name,
    db.indexes.map Index.name)

/-- Changes the table of a name. -/
def mapTable (db : Database) (name : String) (f : Table → Table) : Database :=
  { db with tables := db.tables.map fun t => if sameName t.name name then f t else t }

/-- The index of a name. -/
def index? (db : Database) (name : String) : Option Index :=
  db.indexes.find? fun i => sameName i.name name

/-- The triggers on a table, newest first. -/
def triggersOn (db : Database) (table : String) : List Trigger :=
  db.triggers.filter fun t => sameName t.table table

/-- The indexes on a table. -/
def indexesOn (db : Database) (table : String) : List Index :=
  db.indexes.filter fun i => sameName i.table table

end Database

end Dossier
