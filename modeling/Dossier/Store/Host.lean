import Dossier.Store.Basic

/-!
# Stores on a disk

A `Host` has a disk and at most one open store. `Host.openStore` checks the settings, makes the directories
above the file, opens it and checks its version, in this order. Opening again ends the sessions and the
store first; the settings of the last attempt are remembered, even when it failed.
-/

namespace Dossier

/-- A disk with at most one open store, and what outlives one: the settings that were used last, the
source of identifiers, the events that nobody has taken yet, and the clock. -/
structure Host where
  disk : Disk
  store : Option Store
  settings : Settings
  ids : IdSource
  events : List Event
  clock : Clock

/-- A call of a host or of the store that it has open. -/
inductive StoreRequest
  | session (name : String) (request : Request)
  | acquire (name : String)
  | release (name : String)
  | transaction (requests : List Request) (failure : Option String) (keepGoing : Bool)
  | withSession (requests : List Request) (failure : Option String) (keepGoing : Bool)
  | status
  | maintain
  | awaitMaintenance
  | close
  | takeEvents
  | reopen (settings : Option Settings)

/-- What comes back from a call of a host. -/
inductive StoreReply
  | session (reply : Reply)
  | done
  | released (b : Bool)
  | status (s : PoolStatus)
  | maintenance (outcome : Maintenance)
  | awaited (completed : Bool)
  | events (l : List Event)
  | failed (e : StoreError)
  | noStore

namespace Host

/-- A host without a store. -/
def start (disk : Disk) (settings : Settings) (ids : IdSource) (clock : Clock) : Host :=
  ⟨disk, none, settings, ids, [], clock⟩

/-- The path of the directory that the host works in. -/
def home (d : Disk) : String := String.join (d.current.map ("/" ++ ·))

/-- Puts plain files into the directory. -/
def addFiles (h : Host) (paths : List String) : Host :=
  { h with disk := paths.foldl (fun d path => d.put (d.place path) .plain) h.disk }

/-- The place of a store's file. -/
def place (d : Disk) (settings : Settings) : Location := d.place (Path.within (home d) settings.path)

/-- Opens the file of a store: the disk afterwards, and the file. -/
def openFile (d : Disk) (settings : Settings) : Disk × Except StoreError File :=
  let path := Path.within (home d) settings.path
  match { settings with path }.check d with
  | .error fault => (d, .error (.invalid fault))
  | .ok () =>
    match d.makeParents? path with
    | none => (d, .error .io)
    | some d =>
      match d.database? (d.place path) with
      | none => (d, .error (.engine "unable to open database file"))
      | some file =>
        let d := d.put (d.place path) (.database file)
        if file.contents.version = Database.currentVersion then (d, .ok file)
        else (d, .error (.invalid (.unsupportedVersion file.contents.version)))

/-- Opens a store. -/
def openStore (h : Host) (settings : Settings) : Except StoreError Unit × Host :=
  let (disk, outcome) := openFile h.disk settings
  let h := { h with disk, settings }
  match outcome with
  | .error e => (.error e, h)
  | .ok file => (.ok (), { h with store := some (.start settings file h.ids h.clock) })

/-- Ends the open store and writes its file back. -/
def shutDown (h : Host) : Host :=
  match h.store with
  | none => h
  | some s =>
    let ((), s) := Store.shutDown.run s
    { h with
      disk := h.disk.put (place h.disk s.settings) (.database s.file)
      store := none
      ids := s.ids
      events := h.events ++ s.events
      clock := s.clock }

/-- Opens again, with other settings if there are any. -/
def reopen (h : Host) (settings : Option Settings) : StoreReply × Host :=
  let h := h.shutDown
  match h.openStore (settings.getD h.settings) with
  | (.ok (), h) => (.done, h)
  | (.error e, h) => (.failed e, h)

theorem reopen_eq (h : Host) (settings : Option Settings) :
    h.reopen settings = match h.shutDown.openStore (settings.getD h.shutDown.settings) with
      | (.ok (), h) => (.done, h)
      | (.error e, h) => (.failed e, h) := (rfl)

/-- Lets the open store do something. -/
def withStore (h : Host) (f : Operation StoreReply) : StoreReply × Host :=
  match h.store with
  | none => (.noStore, h)
  | some s =>
    let (reply, s) := f.run s
    (reply, { h with store := some s })

/-- Takes the events since the last time. -/
def takeEvents (h : Host) : StoreReply × Host :=
  match h.store with
  | none => (.events h.events, { h with events := [] })
  | some s =>
    (.events (h.events ++ s.events), { h with events := [], store := some { s with events := [] } })

/-- Makes a call. -/
def call (h : Host) : StoreRequest → StoreReply × Host
  | .session name request => h.withStore (.session <$> Store.call name request)
  | .acquire name => h.withStore do
    match ← Store.replace name with
    | .ok () => return .done
    | .error e => return .failed e
  | .release name =>
    if h.store.isNone then (.released false, h) else h.withStore (.released <$> Store.release name)
  | .transaction requests failure keepGoing =>
    h.withStore (.session <$> Store.inSession (Action.scope (Request.runBlock requests failure keepGoing)))
  | .withSession requests failure keepGoing =>
    h.withStore (.session <$> Store.inSession do
      let (replies, failure) ← Request.runBlock requests failure keepGoing
      return (some replies, failure))
  | .status => h.withStore do return .status (← get).status
  | .maintain => h.withStore (.maintenance <$> Store.maintain)
  | .awaitMaintenance => h.withStore (.awaited <$> Store.awaitMaintenance)
  | .close => h.withStore do
    Store.close
    return .done
  | .takeEvents => h.takeEvents
  | .reopen settings => h.reopen settings

/-- Makes calls one after another. -/
def callAll (h : Host) : List StoreRequest → List StoreReply × Host
  | [] => ([], h)
  | request :: rest =>
    let (reply, h) := h.call request
    let (replies, h) := h.callAll rest
    (reply :: replies, h)

end Host

end Dossier
