import Dossier.Database.Basic
import Dossier.Error

/-!
# Why an operation of the store fails

`StoreError` joins the errors of requests, of updates and of the engine with those of the store
itself. `InvalidFault` names what is wrong with a document, a setting or a request that could be
compiled all the same.
-/

namespace Dossier

/-- What is wrong with a document, a setting or a request. -/
inductive InvalidFault
  | notAnObject
  | twoIdentifiers
  | badIdentifier
  | operatorsInReplacement
  | columnTaken (column path : String)
  | emptyCheck
  | checkParameters
  | checkNotRecorded (name : String)
  | unsupportedVersion (version : Int)
  | emptyStorePath
  | inMemory
  | longStorePath
  | longStoreComponent
  | storeDirectory
  | poolSize (size : Nat)
  | zeroSetting (setting : String)
  | custom (text : String)
deriving DecidableEq, Repr

/-- What keeps a stored text from being a document. -/
inductive DecodeFault
  | unreadable
  | notAnObject
deriving DecidableEq, Repr

/-- A step between transactions that the session is not in the state for. -/
inductive TransactionFault
  | commit
  | rollback
deriving DecidableEq, Repr

/-- Why an operation of the store fails. -/
inductive StoreError
  | compile (e : CompileError)
  | apply (e : ApplyError)
  | missingSet
  | compoundUnique (paths : List String)
  | constraint (message : String)
  | poolTimeout (waited : Nat)
  | transactionState (fault : TransactionFault)
  | engine (message : String)
  | io
  | invalid (fault : InvalidFault)
  | serialization (fault : DecodeFault)
  | closed
deriving DecidableEq, Repr

namespace InvalidFault

/-- The most connections that a store may have. -/
def poolSizeLimit : Nat := 256

def message : InvalidFault → String
  | notAnObject => "document must be a JSON object"
  | twoIdentifiers => "document carries both \x60_id\x60 and \x60id\x60"
  | badIdentifier => "document identifier must be a non-empty string or an integer"
  | operatorsInReplacement => "replacement document must not contain update operators"
  | columnTaken column path => "column " ++ column ++ " already mirrors path " ++ path
  | emptyCheck => "check expression must not be empty"
  | checkParameters => "check expressions cannot bind parameters"
  | checkNotRecorded name => "check constraint " ++ name ++ " not recorded"
  | unsupportedVersion version => "unsupported metadata schema version: " ++ toString version
  | emptyStorePath => "store path must not be empty"
  | inMemory => "in-memory databases cannot be shared across pooled connections"
  | longStorePath => "store path exceeds length limit"
  | longStoreComponent => "store path contains an overlong component"
  | storeDirectory => "store path must be a file, not a directory"
  | poolSize size =>
    "pool_size out of range: " ++ toString size ++ " (expected 1..=" ++ toString poolSizeLimit ++ ")"
  | zeroSetting setting => setting ++ " must be greater than zero"
  | custom text => text

end InvalidFault

namespace DecodeFault

def message : DecodeFault → String
  | unreadable => "stored document is not readable"
  | notAnObject => "stored document is not a JSON object"

end DecodeFault

namespace TransactionFault

def message : TransactionFault → String
  | commit => "commit called with no open transaction"
  | rollback => "rollback called with no open transaction"

end TransactionFault

namespace StoreError

def message : StoreError → String
  | compile e => e.message
  | apply e => "sqlite store update error: " ++ e.message
  | missingSet => "sqlite store update error: update_many requires a $set operator"
  | compoundUnique paths =>
    "sqlite store promotion error: unique constraints over compound keys are not supported ("
      ++ joinWith ", " paths ++ ")"
  | constraint message => "sqlite store constraint violation: " ++ message
  | poolTimeout waited =>
    "sqlite store pool timeout: no connection available after " ++ toString waited ++ " ms"
  | transactionState fault => "sqlite store transaction state error: " ++ fault.message
  | engine message => "sqlite store db error: " ++ message
  | io => "sqlite store io error"
  | invalid fault => "sqlite store invalid data: " ++ fault.message
  | serialization fault => "sqlite store serialization error: " ++ fault.message
  | closed => "sqlite store closed"

/-- The engine's refusal: a violated constraint, or any other failure. -/
def ofEngine : EngineError → StoreError
  | .constraint message => constraint message
  | .failure message => engine message

end StoreError

end Dossier
