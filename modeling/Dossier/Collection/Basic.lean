import Dossier.Session.Transaction
import Dossier.Update.Apply

/-!
# Collections and their documents

Opening a `Collection` makes its table on first use and reads from the registry which paths are
promoted. A `Document` is a row with its body decoded; `Document.value` is the object with the
identifier in front of the entries of the body.

From the side of the engine a collection is a table: the names of its columns, triggers and indexes
and the values of a column. `freeze` and `putBody` change the table without the store's knowledge.
-/

namespace Dossier

/-- A collection and where its fields are stored. -/
structure Collection where
  name : CollectionName
  resolver : Resolver

/-- A stored document. -/
structure Document where
  id : String
  body : Fields
  createdAt : Int
  updatedAt : Int

namespace Body

/-- The entries of a stored body, which must be an object. -/
def decode (b : Body) : Except StoreError Fields :=
  match b.tree.decode? with
  | some (.object fields) => .ok fields
  | some _ => .error (.serialization .notAnObject)
  | none => .error (.serialization .unreadable)

end Body

namespace Row

/-- The document of a row. -/
def document (r : Row) : Except StoreError Document := do
  return ⟨r.id, ← r.data.decode, r.createdAt, r.updatedAt⟩

end Row

namespace Document

/-- The key of the identifier in a document's object. -/
def idKey : String := "_id"

/-- The document as an object, the identifier first. -/
def value (d : Document) : Json :=
  .object (d.body.foldl (fun object entry => Fields.put object entry.1 entry.2) [(idKey, .string d.id)])

/-- The value at a dotted path of the body. -/
def get? (d : Document) (path : String) : Option Json :=
  d.body.getAt? ((splitDots path.toList).map String.ofList)

end Document

namespace Database

/-- The promoted paths of a collection in the order of their first promotions. -/
def promotionsOf (db : Database) (collection : String) : List Promotion :=
  db.promotions.filter fun p => p.collection = collection

/-- The check constraints of a collection in the order of their registrations. -/
def checksOf (db : Database) (collection : String) : List CheckEntry :=
  db.checks.filter fun c => c.collection = collection

/-- Where the fields of a collection are stored. -/
def resolver (db : Database) (collection : String) : Resolver :=
  ⟨(db.promotionsOf collection).map Promotion.path⟩

end Database

namespace Collection

/-- Opens a collection, making its table on first use. -/
def openNamed (name : String) : Action Collection := do
  let name ← Action.ofRequest (CollectionName.parse name)
  Action.connect fun c => c.ensureTable name
  let resolver ← Action.read fun db => .ok (db.resolver name.text)
  return ⟨name, resolver⟩

/-- Runs a statement about the collection. -/
def execute (c : Collection) (s : Statement a) : Action a.Carrier :=
  Action.execute c.name c.resolver s

/-- A filter as the collection's statements take it. -/
def predicate (c : Collection) (f : Filter) : Predicate := f.predicate c.resolver

end Collection

/-! ## The table of a collection -/

open Text

/-- The names that belong to a collection's table. -/
structure TableSchema where
  columns : List String
  triggers : List String
  indexes : List String
deriving DecidableEq, Repr

/-- Texts in the order of their code points. -/
def sortTexts (l : List String) : List String := l.mergeSort fun a b => decide (a ≤ b)

namespace Table

/-- The values of a column in the order of insertion. A name that no column has stands for
itself. -/
def columnValues (t : Table) (column : String) : List Value :=
  match t.column? column with
  | some c => t.rows.map fun r => r.column c
  | none => t.rows.map fun _ => .text column

end Table

namespace Database

/-- What triggers read when a row is about to hold a text as its body. -/
def placeWith (data : String) (r : Row) (place : Place) : Value :=
  if place.version = .current && place.column = .data then .text data else r.column place.column

/-- The body that a text becomes in a row. The triggers see the text before it is found to be no
JSON. -/
def admitBody (db : Database) (t : Table) (r : Row) (data : String) : Except EngineError Body := do
  if (Body.ofText? data).isNone then
    (← db.ready t .bodyUpdate).forM (Trigger.before (placeWith data r))
  validBody data

end Database

namespace Collection

open Dossier.Action

/-- The names of the table's columns in order, of its triggers and of its indexes. -/
def schema (c : Collection) : Action TableSchema :=
  read fun db => do
    let t ← db.tableOf c.name.text
    return ⟨systemColumns ++ t.columns,
      sortTexts ((db.triggersOn c.name.text).map Trigger.name),
      sortTexts ((db.indexesOn c.name.text).map Index.name)⟩

/-- The values of a column in the order of insertion. -/
def columnValues (c : Collection) (column : String) : Action (List Value) :=
  read fun db => do return (← db.tableOf c.name.text).columnValues column

/-- Makes every update of the table fail. -/
def freeze (c : Collection) : Action Unit :=
  alter fun db => db.createTrigger ⟨"frozen_" ++ c.name.text, c.name.text, .anyUpdate, .refuse "frozen"⟩

/-- Stores a text as the body of a document and counts the changed rows. -/
def putBody (c : Collection) (id data : String) : Action Nat :=
  write fun db => db.updateRows c.name.text fun t =>
    (t.rows.filter fun r => r.id = id).mapM fun r => do
      return (r, { r with data := ← db.admitBody t r data })

end Collection

end Dossier
