import Dossier.Session.Request
import Dossier.Store.Pool
import Dossier.Store.Settings

/-!
# The store

A `Store` lends its connections to sessions. A session borrows one when it begins and gives it back
when it ends, with whatever it left open rolled back. `Store.inSession` runs a block in a session of its
own. A closed store lends out nothing any more, but the sessions that it has go on.

A pass of maintenance has three parts, between which sessions may do something: it looks whether a session
has an open transaction (`Store.beginPass`), waits for a connection (`Store.takePass`, `Store.abandonPass`)
and runs its statements on it (`Store.finishPass`). `Store.maintain` is a pass of a caller who does nothing
meanwhile; a `Worker` makes one each time that its interval has passed. Time passes where a caller waits.
-/

namespace Dossier

/-- A session between two calls: its connection, what is open on it, and the number of open levels. -/
structure Session where
  handle : Handle
  transaction : Option Transaction
  depth : Nat

/-- How a maintenance pass went. -/
inductive Maintenance
  | completed
  | skipped
  | failed
deriving DecidableEq, Repr

/-- For how many milliseconds a pass waits for a connection. -/
def Maintenance.patience : Nat := 250

/-- What the thread that makes the passes of an open store does, and for how many milliseconds more: it sleeps
for the interval, or its pass waits for a connection. -/
inductive Worker
  | off
  | sleeping (interval left : Nat)
  | waiting (interval left : Nat)
deriving DecidableEq, Repr

/-- An open store. `active` counts the sessions with an open level; the sessions that are kept have
names. `waiting` counts the passes that wait for a connection, `running` are the connections of those that
have got one. -/
structure Store where
  settings : Settings
  file : File
  pool : Pool
  active : Nat
  sessions : List (String × Session)
  waiting : Nat
  running : List Handle
  worker : Worker
  ids : IdSource
  events : List Event
  clock : Clock

/-- A step of a store. -/
abbrev Operation := StateM Store

namespace Store

/-- A store on a file. -/
def start (settings : Settings) (file : File) (ids : IdSource) (clock : Clock) : Store where
  settings := settings
  file := file
  pool := .start settings.poolSize
  active := 0
  sessions := []
  waiting := 0
  running := []
  worker := match settings.maintenanceInterval with
    | none => .off
    | some interval => .sleeping interval interval
  ids := ids
  events := []
  clock := clock

/-- What a session works with. -/
def workspace (s : Store) (x : Session) : Workspace where
  connection := ⟨s.file, x.handle, x.transaction⟩
  depth := x.depth
  active := s.active
  ids := s.ids
  events := s.events
  clock := s.clock

/-- The session after its work. -/
def sessionOf (w : Workspace) : Session := ⟨w.connection.handle, w.connection.transaction, w.depth⟩

/-- The store after the work of a session. -/
def absorb (s : Store) (w : Workspace) : Store :=
  { s with
    file := w.connection.file
    active := w.active
    ids := w.ids
    events := w.events
    clock := w.clock }

/-- Reports an event. -/
def report (e : Event) : Operation Unit := modify fun s => { s with events := s.events ++ [e] }

/-- Lets a session do something. -/
def act (x : Session) (f : StateM Workspace α) : Operation (α × Session) := do
  let s ← get
  let (a, w) := f.run (s.workspace x)
  set (s.absorb w)
  return (a, sessionOf w)

/-! ## Passes of maintenance -/

/-- Leaves a pass out. -/
def skip (reason : String) : Operation Maintenance := do
  report (.maintenanceSkipped reason)
  return .skipped

/-- Begins a pass: it is left out while a session has an open transaction and when the store is closed, and
else it waits for a connection. -/
def beginPass : Operation (Option Maintenance) := do
  let s ← get
  if 0 < s.active then some <$> skip "transaction open"
  else if s.pool.closed then some <$> skip "store closed"
  else
    set { s with waiting := s.waiting + 1 }
    return none

/-- Gives a pass that waits a connection, if there is one. -/
def takePass : Operation (Option Handle) := do
  let s ← get
  match s.waiting, s.pool.lend? s.file with
  | waiting + 1, some (handle, pool) =>
    set { s with pool, waiting, running := handle :: s.running }
    return some handle
  | _, _ => return none

/-- Leaves out a pass that has waited for too long. -/
def abandonPass : Operation Maintenance := do
  modify fun s => { s with waiting := s.waiting - 1 }
  skip "no connection available"

/-- Runs the statements of a pass on its connection, and gives that back. They fail when a connection holds the write
lock. -/
def finishPass (handle : Handle) : Operation Maintenance := do
  let s ← get
  let running := s.running.erase handle
  if s.file.writer.isSome then
    set { s with pool := s.pool.release handle, running }
    report .maintenanceFailed
    return .failed
  else
    set { s with pool := s.pool.release (handle.look s.file.contents), running }
    report .maintenanceCompleted
    return .completed

/-! ## The worker -/

/-- Runs the pass of the worker, if it waits and there is a connection. -/
def serve : Operation (Option Maintenance) := do
  match (← get).worker with
  | .waiting interval _ =>
    match ← takePass with
    | none => return none
    | some handle =>
      modify fun s => { s with worker := .sleeping interval interval }
      some <$> finishPass handle
  | _ => return none

/-- Lets a millisecond pass, and tells how the pass of the worker went that has ended in it. -/
def tick : Operation (Option Maintenance) := do
  match (← get).worker with
  | .off => return none
  | .sleeping interval (left + 1) =>
    modify fun s => { s with worker := .sleeping interval left }
    return none
  | .sleeping interval 0 =>
    match ← beginPass with
    | some outcome =>
      modify fun s => { s with worker := .sleeping interval interval }
      return some outcome
    | none =>
      modify fun s => { s with worker := .waiting interval Maintenance.patience }
      serve
  | .waiting interval (left + 1) =>
    modify fun s => { s with worker := .waiting interval left }
    return none
  | .waiting interval 0 =>
    modify fun s => { s with worker := .sleeping interval interval }
    some <$> abandonPass

/-- Lets milliseconds pass. -/
def wait : Nat → Operation Unit
  | 0 => return
  | milliseconds + 1 => do
    if (← get).worker ≠ .off then
      let _ ← tick
      wait milliseconds

/-- Lets milliseconds pass until the worker has completed a pass, and tells whether it has. -/
def waitForPass : Nat → Operation Bool
  | 0 => return false
  | milliseconds + 1 => do
    if (← tick) = some .completed then return true
    else waitForPass milliseconds

/-- Waits until the worker has completed a pass. If neither the one that it is at completes nor the next one, none does. -/
def awaitMaintenance : Operation Bool := do
  match (← get).worker with
  | .off => return false
  | .sleeping interval _ | .waiting interval _ => waitForPass (2 * (interval + Maintenance.patience + 2))

/-- Ends the worker; a pass that it has begun finds no connection any more. -/
def stopWorker : Operation Unit := do
  if let .waiting .. := (← get).worker then
    let _ ← abandonPass
  modify fun s => { s with worker := .off }

/-- Makes a pass, and does nothing else until it has ended. -/
def maintain : Operation Maintenance := do
  match ← beginPass with
  | some outcome => return outcome
  | none =>
    match ← takePass with
    | some handle => finishPass handle
    | none =>
      wait Maintenance.patience
      match ← takePass with
      | some handle => finishPass handle
      | none => abandonPass

/-! ## Sessions -/

/-- Begins a session. -/
def acquire : Operation (Except StoreError Session) := do
  let s ← get
  match s.pool.acquire s.file with
  | .ok (handle, pool) =>
    set { s with pool }
    return .ok ⟨handle, none, 0⟩
  | .error .closed => return .error .closed
  | .error .exhausted =>
    wait s.settings.acquireTimeout
    report (.poolTimeout s.settings.poolSize s.settings.acquireTimeout)
    return .error (.poolTimeout s.settings.acquireTimeout)

/-- Ends a session. -/
def finish (x : Session) : Operation Unit := do
  let (_, x) ← act x (ExceptT.run Action.finish)
  modify fun s => { s with pool := s.pool.release x.handle }
  let _ ← serve

/-- The session of a name. -/
def session? (s : Store) (name : String) : Option Session :=
  (s.sessions.find? fun e => e.1 = name).map (·.2)

/-- The sessions but the one of a name. -/
def without (s : Store) (name : String) : Store :=
  { s with sessions := s.sessions.filter fun e => e.1 ≠ name }

/-- Keeps a session under a name. -/
def keep (name : String) (x : Session) : Operation Unit :=
  modify fun s => { s.without name with sessions := (name, x) :: (s.without name).sessions }

/-- Ends the session of a name, and tells whether there was one. -/
def release (name : String) : Operation Bool := do
  match (← get).session? name with
  | none => return false
  | some x =>
    modify fun s => s.without name
    finish x
    return true

/-- Begins a session under a name, in the place of the one that it had. -/
def replace (name : String) : Operation (Except StoreError Unit) := do
  match ← acquire with
  | .error e => return .error e
  | .ok x =>
    let _ ← release name
    keep name x
    return .ok ()

/-- Makes a call of the session of a name, which begins with its first call. -/
def call (name : String) (request : Request) : Operation Reply := do
  let session ← match (← get).session? name with
    | some x => pure (.ok x)
    | none => acquire
  match session with
  | .error e => return .failed e
  | .ok x =>
    let (reply, x) ← act x request.run
    keep name x
    return reply

/-- Runs a block in a session of its own: its replies and how it ends. -/
def inSession (block : StateM Workspace (Option (List Reply) × Option StoreError)) :
    Operation Reply := do
  match ← acquire with
  | .error e => return .block [] (some e) none
  | .ok x =>
    let ((replies, failure), x) ← act x block
    finish x
    return .block (replies.getD []) failure none

/-! ## The store as a whole -/

/-- The counters of the pool. -/
def status (s : Store) : PoolStatus := s.pool.status s.active

/-- Closes the store, once, and ends its worker. -/
def close : Operation Unit := do
  stopWorker
  if !(← get).pool.closed then
    modify fun s => { s with pool := s.pool.close }
    report .storeClosed

/-- Ends the sessions in the order of their names, then closes the store. -/
def shutDown : Operation Unit := do
  (sortTexts ((← get).sessions.map (·.1))).forM fun name => do let _ ← release name
  close

end Store

end Dossier
