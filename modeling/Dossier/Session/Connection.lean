import Dossier.Database.Schema

/-!
# Connections to a file

A `File` holds the committed contents and knows which connection holds the write lock. Outside a
transaction every statement of a `Connection` is a transaction of its own; inside one, reads see the
contents from the first read on and writes stay private until the commit. A savepoint saves the
contents for a later rollback; one that is set outside a transaction opens a transaction, which its
release commits.

A connection remembers the tables that were there when it last looked, until it rolls back a change of
the schema. To make sure of a table that it does not remember it asks for the write lock, even if another
connection has made the table since.
-/

namespace Dossier

/-- A database file: the committed contents, the number of commits, and the holder of the write
lock. -/
structure File where
  contents : Database
  commits : Nat
  writer : Option Nat

/-- An open transaction. `view` is what it sees, `snapshot` the number of commits before its first
read, `saved` the savepoints from the innermost out, each with the contents to go back to. -/
structure Transaction where
  view : Database
  snapshot : Option Nat
  writes : Bool
  saved : List (Nat × Database)
  bySavepoint : Bool

/-- An open connection apart from its file: its number, and the tables that it remembers. One that
remembers nothing looks before its next statement. -/
structure Handle where
  number : Nat
  known : Option (List String)
deriving DecidableEq, Repr

/-- A connection to a file. -/
structure Connection where
  file : File
  handle : Handle
  transaction : Option Transaction

namespace File

/-- A new file. -/
def empty : File := ⟨.empty, 0, none⟩

/-- A new connection to the file. -/
def connect (f : File) (number : Nat) : Handle := ⟨number, some f.contents.tableNames⟩

end File

namespace Handle

/-- The handle after a look at a database. -/
def look (h : Handle) (db : Database) : Handle := { h with known := some db.tableNames }

/-- The handle after going back from one state of the database to another. -/
def goBack (h : Handle) (since now : Database) : Handle :=
  if since.schema = now.schema then h else { h with known := none }

/-- The handle knows of a table, looking at the database if it remembers nothing. -/
def knows (h : Handle) (db : Database) (name : String) : Bool :=
  (h.known.getD db.tableNames).any (Text.sameName name)

end Handle

namespace Connection

/-- What the engine says when another connection holds the write lock. -/
def locked : EngineError := .failure "database is locked"

/-- The name of the savepoint of a level. -/
def savepointName (level : Nat) : String := "docstore_sp_" ++ toString level

/-- No transaction is open. -/
def isIdle (c : Connection) : Bool := c.transaction.isNone

/-- Another connection holds the write lock. -/
def isLocked (c : Connection) : Bool := c.file.writer.any (· != c.handle.number)

/-- Fixes what an open transaction sees. -/
def pin (c : Connection) (t : Transaction) : Transaction :=
  match t.snapshot with
  | some _ => t
  | none =>
    { t with
      view := c.file.contents
      snapshot := some c.file.commits
      saved := t.saved.map fun s => (s.1, c.file.contents) }

/-! ## Statements -/

/-- What a statement reads, and the connection after it. -/
def read (c : Connection) : Database × Connection :=
  match c.transaction with
  | none => (c.file.contents, { c with handle := c.handle.look c.file.contents })
  | some t =>
    let t := c.pin t
    (t.view, { c with handle := c.handle.look t.view, transaction := some t })

/-- A transaction may write: it does so already, or the lock is free and it sees the last commit. -/
def mayWrite (c : Connection) (t : Transaction) : Bool :=
  t.writes || (!c.isLocked && t.snapshot == some c.file.commits)

/-- Runs a statement that writes. -/
def write (c : Connection) (f : Database → Except EngineError (α × Database)) :
    Except EngineError (α × Connection) :=
  match c.transaction with
  | none =>
    if c.isLocked then .error locked
    else do
      let (a, db) ← f c.file.contents
      return (a, { c with
        file := { c.file with contents := db, commits := c.file.commits + 1 }
        handle := c.handle.look db })
  | some t =>
    let t := c.pin t
    if c.mayWrite t then do
      let (a, db) ← f t.view
      return (a, { c with
        file := { c.file with writer := some c.handle.number }
        handle := c.handle.look db
        transaction := some { t with view := db, writes := true } })
    else .error locked

/-- Makes the table of a collection unless it exists. -/
def ensureTable (c : Connection) (name : CollectionName) : Except EngineError Connection :=
  let looked := c.read
  if c.handle.knows looked.1 name.text then .ok looked.2
  else if (looked.1.table? name.text).isSome && c.isIdle then
    if c.isLocked then .error locked else .ok looked.2
  else do
    let ((), c) ← c.write fun db => return ((), ← db.createTable name)
    return c

/-! ## Transactions -/

/-- Opens a transaction that holds the write lock. -/
def begin (c : Connection) : Except EngineError Connection :=
  match c.transaction with
  | some _ => .error (.failure "cannot start a transaction within a transaction")
  | none =>
    if c.file.writer.isSome then .error locked
    else .ok
      { c with
        file := { c.file with writer := some c.handle.number }
        transaction := some ⟨c.file.contents, some c.file.commits, true, [], false⟩ }

/-- Ends a transaction and keeps what it wrote. -/
def close (c : Connection) (t : Transaction) : Connection :=
  if t.writes then { c with file := ⟨t.view, c.file.commits + 1, none⟩, transaction := none }
  else { c with transaction := none }

/-- Commits the open transaction. -/
def commit (c : Connection) : Except EngineError Connection :=
  match c.transaction with
  | none => .error (.failure "cannot commit - no transaction is active")
  | some t => .ok (c.close t)

/-- Ends a transaction and drops what it wrote. -/
def abandon (c : Connection) (t : Transaction) : Connection :=
  { c with
    file := if t.writes then { c.file with writer := none } else c.file
    handle := if t.writes then c.handle.goBack t.view c.file.contents else c.handle
    transaction := none }

/-- Rolls the open transaction back. -/
def rollback (c : Connection) : Except EngineError Connection :=
  match c.transaction with
  | none => .error (.failure "cannot rollback - no transaction is active")
  | some t => .ok (c.abandon t)

/-- Rolls back whatever is open. -/
def reset (c : Connection) : Connection :=
  match c.transaction with
  | none => c
  | some t => c.abandon t

/-! ## Savepoints -/

/-- Sets a savepoint; outside a transaction it opens one. -/
def savepoint (c : Connection) (level : Nat) : Connection :=
  match c.transaction with
  | none =>
    let db := c.file.contents
    { c with transaction := some ⟨db, none, false, [(level, db)], true⟩ }
  | some t => { c with transaction := some { t with saved := (level, t.view) :: t.saved } }

/-- The savepoints from the innermost one of a level out. -/
def savedFrom (level : Nat) (saved : List (Nat × Database)) : List (Nat × Database) :=
  saved.dropWhile (·.1 != level)

/-- The engine knows no savepoint of the level. -/
def unknownSavepoint (level : Nat) : EngineError :=
  .failure ("no such savepoint: " ++ savepointName level)

/-- Releases a savepoint and those inside it. -/
def release (c : Connection) (level : Nat) : Except EngineError Connection :=
  match c.transaction with
  | none => .error (unknownSavepoint level)
  | some t =>
    match savedFrom level t.saved with
    | [] => .error (unknownSavepoint level)
    | _ :: outer =>
      if t.bySavepoint && outer.isEmpty then .ok (c.close t)
      else .ok { c with transaction := some { t with saved := outer } }

/-- Goes back to a savepoint, which stays set. -/
def rollbackTo (c : Connection) (level : Nat) : Except EngineError Connection :=
  match c.transaction with
  | none => .error (unknownSavepoint level)
  | some t =>
    match savedFrom level t.saved with
    | [] => .error (unknownSavepoint level)
    | (l, db) :: outer =>
      .ok { c with
        handle := c.handle.goBack t.view db
        transaction := some { t with view := db, saved := (l, db) :: outer } }

end Connection

end Dossier
