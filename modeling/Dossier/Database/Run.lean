import Dossier.Database.Select
import Dossier.Database.Write

/-!
# What statements do

`Database.run` gives the answer of a statement and the database after it. A statement that reads
leaves the database as it is, and so does one that fails. `Database.answer` is what a statement is
answered with that is within the limits of the engine.
-/

namespace Dossier

namespace Answer

/-- What a statement is answered with. -/
abbrev Carrier : Answer → Type
  | rows => List Row
  | number => Int
  | changed => Nat

end Answer

namespace Row

/-- The row with a new body. -/
def withBody (r : Row) (text : String) (now : Int) : Except EngineError Row := do
  return { r with data := ← Database.validBody text, updatedAt := now }

end Row

namespace Database

/-- The rows that changes alter, each with its new state. A row whose text stays the same is left
alone. -/
def edits (changes : Changes) (now : Int) (rows : List Row) :
    Except EngineError (List (Row × Row)) :=
  rows.foldrM (fun row rest => do
    let text := (changes.edit row.data.tree).text
    if text = row.data.text then return rest
    else return (row, ← row.withBody text now) :: rest) []

/-- The answer of a statement that the engine takes, and the database after it. -/
def answer (db : Database) (name : CollectionName) (r : Resolver) : {a : Answer} → Statement a →
    Except EngineError (a.Carrier × Database)
  | _, .find p l => do
    let t ← db.tableOf name.text
    return (← l.apply r (t.select p), db)
  | _, .findRaw p l => do
    let t ← db.tableOf name.text
    return (← t.findRaw r p l, db)
  | _, .fetch p c => do
    let t ← db.tableOf name.text
    return (t.targets p c, db)
  | _, .count p => do
    let t ← db.tableOf name.text
    return (((t.select p).length : Int), db)
  | _, .countTargets p c => do
    let t ← db.tableOf name.text
    return (((t.targets p c).length : Int), db)
  | _, .guard guards p c => do
    let t ← db.tableOf name.text
    return (Table.guardCode guards (t.targets p c), db)
  | _, .change changes p c now =>
    db.updateRows name.text fun t => edits changes now (t.targets p c)
  | _, .overwrite id body now =>
    db.updateRows name.text fun t =>
      (t.rows.filter fun row => row.id = id).mapM fun row => do
        return (row, ← row.withBody body now)
  | _, .insert id body now => do return (1, ← db.insertRow name.text id body now)
  | _, .delete p c => do
    let t ← db.tableOf name.text
    let rows := t.targets p c
    return (rows.length, db.deleteRows name.text (rows.map Row.rowid))

/-- Choosing the rows of the statement is a fault, if any are to be chosen. -/
def faults (db : Database) (name : CollectionName) {a : Answer} (s : Statement a) : Bool :=
  match s with
  | .find _ ⟨_, some 0, _⟩ => false
  | s => (db.table? name.text).any fun t => t.rows.any fun row => s.filter.faults row.read

/-- The answer of a statement and the database after it. -/
def run (db : Database) (name : CollectionName) (r : Resolver) {a : Answer} (s : Statement a) :
    Except EngineError (a.Carrier × Database) :=
  if !s.isWithinLimits then .error (.failure "statement too large")
  else if db.faults name s then .error (.failure "LIKE or GLOB pattern too complex")
  else db.answer name r s

end Database

end Dossier
