import Dossier.Database.Run
import Dossier.Session.Connection
import Dossier.Store.Event
import Dossier.Store.Identifier

/-!
# Sessions

A `Workspace` is what a session works with: its connection, the number of open transaction levels,
and what it shares with the other sessions of the store. An `Action` is a step of a session; what it
has changed before an error stays changed, so undoing is the business of transactions.

Each time that a document or an entry of a registry is stamped with is a reading of its own of the
`Clock`. Nothing is assumed of the readings: they may repeat, and they may go back.
-/

namespace Dossier

/-- A clock in milliseconds: what it shows, reading after reading. -/
structure Clock where
  reading : Nat → Int

namespace Clock

/-- What the clock shows next. -/
def now (c : Clock) : Int := c.reading 0

/-- The clock after a reading. -/
def rest (c : Clock) : Clock := ⟨fun n => c.reading (n + 1)⟩

/-- A clock that stands still. -/
def still (time : Int) : Clock := ⟨fun _ => time⟩

instance : Coe Int Clock := ⟨still⟩

@[simp] theorem now_still (time : Int) : (still time).now = time := rfl

@[simp] theorem rest_still (time : Int) : (still time).rest = still time := rfl

end Clock

/-- What a session works with. `depth` counts its open levels, `active` the sessions of the store
with an open level. -/
structure Workspace where
  connection : Connection
  depth : Nat
  active : Nat
  ids : IdSource
  events : List Event
  clock : Clock

/-- A step of a session. -/
abbrev Action := ExceptT StoreError (StateM Workspace)

namespace Action

/-- The outcome of an action, which does not fail any more. -/
def attempt (a : Action α) : Action (Except StoreError α) := ExceptT.lift (ExceptT.run a)

/-- Reports an event. -/
def report (e : Event) : Action Unit := modify fun w => { w with events := w.events ++ [e] }

/-- The next identifier. -/
def nextId : Action String := modifyGet fun w =>
  let (id, ids) := w.ids.next
  (id, { w with ids })

/-- The time in milliseconds, by a reading of the clock. -/
def now : Action Int := modifyGet fun w => (w.clock.now, { w with clock := w.clock.rest })

/-- The number of open transaction levels. -/
def depth : Action Nat := return (← get).depth

/-- A result of the engine as one of the store. -/
def ofEngine (r : Except EngineError α) : Action α :=
  match r with
  | .ok a => return a
  | .error e => throw (.ofEngine e)

/-- A request that may have been refused. -/
def ofRequest (r : Except CompileError α) : Action α :=
  match r with
  | .ok a => return a
  | .error e => throw (.compile e)

/-- A change of a document that may have failed. -/
def ofChange (r : Except ApplyError α) : Action α :=
  match r with
  | .ok a => return a
  | .error e => throw (.apply e)

/-- A result of the store. -/
def ofStore (r : Except StoreError α) : Action α :=
  match r with
  | .ok a => return a
  | .error e => throw e

/-- Changes the connection, if the engine agrees. -/
def connect (f : Connection → Except EngineError Connection) : Action Unit := do
  let w ← get
  set { w with connection := ← ofEngine (f w.connection) }

/-- Reads from the database. -/
def read (f : Database → Except EngineError α) : Action α := do
  let w ← get
  let (db, connection) := w.connection.read
  set { w with connection }
  ofEngine (f db)

/-- Writes to the database. -/
def write (f : Database → Except EngineError (α × Database)) : Action α := do
  let w ← get
  let (a, connection) ← ofEngine (w.connection.write f)
  set { w with connection }
  return a

/-- Writes to the database without an answer. -/
def alter (f : Database → Except EngineError Database) : Action Unit :=
  write fun db => (f db).map ((), ·)

/-- Runs a statement about a collection. -/
def execute (name : CollectionName) (r : Resolver) : {a : Answer} → Statement a → Action a.Carrier
  | .changed, s => write fun db => db.run name r s
  | .rows, s => read fun db => (db.run name r s).map (·.1)
  | .number, s => read fun db => (db.run name r s).map (·.1)

end Action

end Dossier
