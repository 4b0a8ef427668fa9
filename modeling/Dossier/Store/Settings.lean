import Dossier.Json.Basic
import Dossier.Store.Disk
import Dossier.Store.Error

/-!
# Settings of a store

A record gives values to a list of named fields: an object by their names, an array by their places.
An object may have other keys. A field that is left out has its default; one that is given must be of
its kind. Notations differ in what they let pass, which is what a `Record.Style` says.

`Settings` say where a store is and how it treats its connections; all but the path have a default.
They are read from a record. `Settings.check` finds the first that is out of range.
-/

namespace Dossier

/-! ## Records -/

namespace Record

/-- What a notation lets pass: an array longer than the list of fields, and which value stands for
"nothing more" beside the name of a choice. -/
structure Style where
  extraItems : Bool
  isUnit : Json → Bool

/-- Records of JSON text. -/
def jsonStyle : Style where
  extraItems := false
  isUnit
    | .null => true
    | _ => false

/-- Records of TOML text. -/
def tomlStyle : Style where
  extraItems := true
  isUnit
    | .array [] => true
    | .object [] => true
    | _ => false

/-- The values that a record gives to fields, in the order of the fields. -/
def values? (s : Style) (names : List String) : Json → Option (List (Option Json))
  | .object fields => some (names.map (Fields.get? fields))
  | .array items =>
    if s.extraItems || items.length ≤ names.length then
      some ((List.range names.length).map fun i => items[i]?)
    else none
  | _ => none

/-! ### Kinds of fields -/

/-- A text. -/
def text? : Json → Option String
  | .string s => some s
  | _ => none

/-- A whole number that is not negative. -/
def natural? : Json → Option Nat
  | .number (.whole n) => if 0 ≤ n.val then some n.val.toNat else none
  | _ => none

/-- A truth value. -/
def flag? : Json → Option Bool
  | .bool b => some b
  | _ => none

/-- A value of some kind, or nothing. -/
def optional? (read : Json → Option α) : Json → Option (Option α)
  | .null => some none
  | j => (read j).map some

/-- The name of a choice: alone, or as the key of an object that says nothing more. -/
def choiceName? (s : Style) : Json → Option String
  | .string name => some name
  | .object [(name, rest)] => if s.isUnit rest then some name else none
  | _ => none

/-- One of several choices. -/
def choice? (s : Style) (all : List α) (name : α → String) (j : Json) : Option α :=
  (choiceName? s j).bind fun n => all.find? fun a => name a = n

/-- The value of a field that may be left out. -/
def orElse (read : Json → Option α) (default : α) : Option Json → Option α
  | none => some default
  | some j => read j

end Record

/-! ## Settings -/

/-- How the engine keeps its journal. -/
inductive JournalMode
  | wal
  | delete
deriving DecidableEq, Repr

/-- How far the engine goes to get its writes to the disk. -/
inductive SyncMode
  | full
  | normal
deriving DecidableEq, Repr

/-- The settings of a store; times are in milliseconds. -/
structure Settings where
  path : String
  busyTimeout : Nat := 5000
  journalMode : JournalMode := .wal
  syncMode : SyncMode := .full
  poolSize : Nat := 4
  acquireTimeout : Nat := 5000
  validateOnBorrow : Bool := true
  maintenanceInterval : Option Nat := none
deriving DecidableEq, Repr

namespace JournalMode

def name : JournalMode → String
  | wal => "wal"
  | delete => "delete"

def all : List JournalMode := [wal, delete]

end JournalMode

namespace SyncMode

def name : SyncMode → String
  | full => "full"
  | normal => "normal"

def all : List SyncMode := [full, normal]

end SyncMode

namespace Path

/-- The most bytes of a path, and of a part of it. -/
def lengthLimit : Nat := 4096
def partLimit : Nat := 255

end Path

namespace Settings

/-! ## Reading -/

/-- The fields of a record of settings. -/
def fieldNames : List String :=
  ["path", "busy_timeout_ms", "journal_mode", "sync_mode", "pool_size", "acquire_timeout_ms",
    "validate_on_borrow", "maintenance_interval_ms"]

open Record in
/-- Reads settings. -/
def ofRecord? (style : Style) (j : Json) : Option Settings := do
  match ← values? style fieldNames j with
  | [path, busy, journal, sync, size, acquire, validate, interval] =>
    let base : Settings := { path := ← text? (← path) }
    return { base with
      busyTimeout := ← orElse natural? base.busyTimeout busy
      journalMode := ← orElse (choice? style JournalMode.all JournalMode.name) base.journalMode journal
      syncMode := ← orElse (choice? style SyncMode.all SyncMode.name) base.syncMode sync
      poolSize := ← orElse natural? base.poolSize size
      acquireTimeout := ← orElse natural? base.acquireTimeout acquire
      validateOnBorrow := ← orElse flag? base.validateOnBorrow validate
      maintenanceInterval := ← orElse (optional? natural?) base.maintenanceInterval interval }
  | _ => none

/-! ## Limits -/

/-- What the names of in-memory databases begin with. -/
def memoryPrefix : String := "file::memory:"

/-- The path is the name of an in-memory database. -/
def isInMemory (path : String) : Bool :=
  path = ":memory:" || memoryPrefix.toList.isPrefixOf path.toList

/-- Checks the path of a store. -/
def checkPath (d : Disk) (path : String) : Except InvalidFault Unit :=
  if path.isEmpty then .error .emptyStorePath
  else if isInMemory path then .error .inMemory
  else if Path.lengthLimit < path.utf8ByteSize then .error .longStorePath
  else if Path.hasLongPart Path.partLimit path then .error .longStoreComponent
  else if d.isDirectory path then .error .storeDirectory
  else .ok ()

/-- Checks the settings of a store on a disk. -/
def check (d : Disk) (s : Settings) : Except InvalidFault Unit := do
  checkPath d s.path
  if s.poolSize = 0 || InvalidFault.poolSizeLimit < s.poolSize then throw (.poolSize s.poolSize)
  if s.busyTimeout = 0 then throw (.zeroSetting "busy_timeout_ms")
  if s.acquireTimeout = 0 then throw (.zeroSetting "acquire_timeout_ms")
  if s.maintenanceInterval = some 0 then throw (.zeroSetting "maintenance_interval_ms")

end Settings

end Dossier
