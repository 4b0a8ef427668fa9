import Dossier.Store.Error

/-!
# Events

What the store reports of its own accord. An event names the collection and the path that it is
about, says more in a message, and may tell how long something took.
-/

namespace Dossier

/-- The kinds of event. -/
inductive EventKind
  | promotionCompleted
  | backfillFailed
  | checkInstalled
  | connectionDiscarded
  | poolTimeout
  | rollbackFailed
  | sessionDropped
  | maintenanceCompleted
  | maintenanceSkipped
  | maintenanceFailed
  | storeClosed
deriving DecidableEq, Repr

/-- How long something took: a time that was measured, or a known number of milliseconds. -/
inductive Duration
  | measured
  | known (milliseconds : Nat)
deriving DecidableEq, Repr

/-- The message of an event. `engine` stands for what the engine said, before the text. -/
inductive EventMessage
  | text (s : String)
  | engine (rest : String)
  | storePath
deriving DecidableEq, Repr

/-- A report of the store. -/
structure Event where
  kind : EventKind
  collection : Option String := none
  path : Option String := none
  message : Option EventMessage := none
  duration : Option Duration := none
deriving DecidableEq, Repr

namespace EventKind

/-- The name of the kind. -/
def name : EventKind → String
  | promotionCompleted => "promotion_completed"
  | backfillFailed => "backfill_failed"
  | checkInstalled => "check_constraint_installed"
  | connectionDiscarded => "pool_connection_discarded"
  | poolTimeout => "pool_timeout"
  | rollbackFailed => "transaction_rollback_failed"
  | sessionDropped => "session_dropped_in_transaction"
  | maintenanceCompleted => "maintenance_completed"
  | maintenanceSkipped => "maintenance_skipped"
  | maintenanceFailed => "maintenance_failed"
  | storeClosed => "store_closed"

end EventKind

namespace Event

/-- A path was promoted. -/
def promotionCompleted (collection path : String) (unique : Bool) : Event where
  kind := .promotionCompleted
  collection := some collection
  path := some path
  message := some (.text (if unique then "unique" else "indexed"))
  duration := some .measured

/-- The rows from before a promotion could not be brought up to date. -/
def backfillFailed (collection path : String) (e : StoreError) : Event where
  kind := .backfillFailed
  collection := some collection
  path := some path
  message := some (.text e.message)

/-- A check constraint was installed. -/
def checkInstalled (collection path expression : String) : Event where
  kind := .checkInstalled
  collection := some collection
  path := some path
  message := some (.text expression)

/-- A rollback failed after another error. -/
def rollbackFailed (cause : StoreError) : Event where
  kind := .rollbackFailed
  message := some (.engine (" (while handling: " ++ cause.message ++ ")"))

/-- A session ended inside a transaction. -/
def sessionDropped (depth : Nat) : Event where
  kind := .sessionDropped
  message := some (.text ("rolled back " ++ toString depth ++ " open transaction level(s)"))

/-- No connection became free in time. -/
def poolTimeout (size waited : Nat) : Event where
  kind := .poolTimeout
  message :=
    some (.text ("pool of " ++ toString size ++ " exhausted: timed out waiting for connection"))
  duration := some (.known waited)

/-- Maintenance was left out. -/
def maintenanceSkipped (reason : String) : Event where
  kind := .maintenanceSkipped
  message := some (.text reason)

/-- Maintenance ran. -/
def maintenanceCompleted : Event where
  kind := .maintenanceCompleted
  duration := some .measured

/-- Maintenance ran into an error of the engine. -/
def maintenanceFailed : Event where
  kind := .maintenanceFailed
  message := some (.engine "")
  duration := some .measured

/-- The store was closed. -/
def storeClosed : Event where
  kind := .storeClosed
  message := some .storePath

end Event

end Dossier
