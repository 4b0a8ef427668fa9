import Dossier.Store.Host
import Dossier.Store.Settings
import Dossier.Toml.Document

/-!
# Configuration files

A configuration is a TOML document with the settings of the store and, if wanted, where its events
go. `Configuration.ofToml` reads and checks one; `Configuration.load` first finds the file: the path
that the caller gives, else the one in the environment, else a file of the default name.

A configured store reports its events to the sink of its configuration. The log file must be writable
before the store is opened; a store that cannot be opened counts as a failure of the disk.
-/

namespace Dossier

/-- Where the events of a store go. -/
inductive EventSink
  | stderr
  | file
  | none
deriving DecidableEq, Repr

/-- The settings of the event log; only the sink `file` has a path. -/
structure LogSettings where
  sink : EventSink := .stderr
  path : Option String := none
deriving DecidableEq, Repr

/-- A configuration. -/
structure Configuration where
  store : Settings
  logging : LogSettings
deriving DecidableEq, Repr

/-- What is wrong with a path. -/
inductive LengthFault
  | empty
  | path
  | part
deriving DecidableEq, Repr

/-- What is wrong with a configuration or its file. -/
inductive ConfigurationFault
  | store (fault : InvalidFault)
  | sinkWithoutPath
  | pathWithoutSink
  | logPath (fault : LengthFault)
  | filePath (fault : LengthFault)
  | fileSize
  | fileEncoding
deriving DecidableEq, Repr

/-- Why there is no configuration. -/
inductive ConfigurationError
  | io
  | parse
  | invalid (fault : ConfigurationFault)
deriving DecidableEq, Repr

namespace LengthFault

/-- The first fault of a path. -/
def find? (path : String) : Option LengthFault :=
  if path.isEmpty then some empty
  else if Path.lengthLimit < path.utf8ByteSize then some .path
  else if Path.hasLongPart Path.partLimit path then some part
  else none

def message (subject : String) : LengthFault → String
  | empty => subject ++ " must be non-empty"
  | path => subject ++ " exceeds max length"
  | part => subject ++ " path component too long"

end LengthFault

namespace ConfigurationFault

def message : ConfigurationFault → String
  | store fault => (StoreError.invalid fault).message
  | sinkWithoutPath => "logging.sink=file requires logging.path"
  | pathWithoutSink => "logging.path is only valid with logging.sink=file"
  | logPath fault => fault.message "logging.path"
  | filePath fault => fault.message "config path"
  | fileSize => "config file exceeds size limit"
  | fileEncoding => "config file must be utf-8"

end ConfigurationFault

namespace ConfigurationError

def message : ConfigurationError → String
  | io => "config io error"
  | parse => "config parse error"
  | invalid fault => "invalid config: " ++ fault.message

end ConfigurationError

namespace EventSink

def name : EventSink → String
  | stderr => "stderr"
  | file => "file"
  | none => "none"

def all : List EventSink := [stderr, file, none]

end EventSink

namespace LogSettings

open Record in
/-- Reads the settings of the event log. -/
def ofRecord? (style : Style) (j : Json) : Option LogSettings := do
  match ← values? style ["sink", "path"] j with
  | [sink, path] =>
    let base : LogSettings := {}
    return {
      sink := ← orElse (choice? style EventSink.all EventSink.name) base.sink sink
      path := ← orElse (optional? text?) base.path path }
  | _ => none

/-- Checks that there is a path where one belongs, and nowhere else. -/
def check (l : LogSettings) : Except ConfigurationFault Unit :=
  match l.sink, l.path with
  | .file, none => .error .sinkWithoutPath
  | .file, some path =>
    match LengthFault.find? path with
    | some fault => .error (.logPath fault)
    | none => .ok ()
  | _, some _ => .error .pathWithoutSink
  | _, none => .ok ()

end LogSettings

namespace Configuration

open Record in
/-- Reads a configuration. -/
def ofRecord? (style : Style) (j : Json) : Option Configuration := do
  match ← values? style ["store", "logging"] j with
  | [store, logging] =>
    return ⟨← Settings.ofRecord? style (← store),
      ← orElse (LogSettings.ofRecord? style) {} logging⟩
  | _ => none

/-- Checks all settings on a disk. -/
def check (d : Disk) (c : Configuration) : Except ConfigurationFault Unit := do
  (c.store.check d).mapError .store
  c.logging.check

/-- Reads and checks the text of a configuration. -/
def ofToml (d : Disk) (text : String) : Except ConfigurationError Configuration :=
  match (Toml.read? text).bind (ofRecord? Record.tomlStyle) with
  | none => .error .parse
  | some c =>
    match c.check d with
    | .error fault => .error (.invalid fault)
    | .ok () => .ok c

/-! ## Files -/

/-- The name of the file when no path is given. -/
def defaultName : String := "docstore.toml"

/-- The most bytes that the file may have. -/
def sizeLimit : Nat := 1024 * 1024

/-- The path of the file: what the caller gives, else what the environment gives, else the default
name. -/
def choosePath (given environment : Option String) : Except ConfigurationError String :=
  match given, environment with
  | some path, _ => .ok path
  | none, some path =>
    if Path.lengthLimit < path.utf8ByteSize then .error (.invalid (.filePath .path)) else .ok path
  | none, none => .ok defaultName

/-- Reads and checks the bytes of a configuration file. -/
def ofBytes (d : Disk) (bytes : ByteArray) : Except ConfigurationError Configuration :=
  if sizeLimit < bytes.size then .error (.invalid .fileSize)
  else match String.fromUTF8? bytes with
    | none => .error (.invalid .fileEncoding)
    | some text => ofToml d text

/-- Finds, reads and checks a configuration file; `content` tells what the files hold. -/
def load (d : Disk) (content : String → Option ByteArray) (given environment : Option String) :
    Except ConfigurationError Configuration := do
  let path ← choosePath given environment
  if let some fault := LengthFault.find? path then throw (.invalid (.filePath fault))
  match content path with
  | none => throw .io
  | some bytes => ofBytes d bytes

end Configuration

end Dossier

/-! ## Opening a configured store -/

namespace Dossier.Configuration

/-- Prepares the sink of the events. -/
def openSink (c : Configuration) (d : Disk) : Except ConfigurationError Disk :=
  match c.logging.sink, c.logging.path with
  | .file, none => .error (.invalid .sinkWithoutPath)
  | .file, some path =>
    let path := Path.within (Host.home d) path
    if d.canWrite path then .ok (d.put (d.place path) .plain) else .error .io
  | _, _ => .ok d

/-- Opens the store of a configuration. -/
def openStore (c : Configuration) (h : Host) : Except ConfigurationError Host := do
  let disk ← c.openSink h.disk
  match { h with disk }.openStore c.store with
  | (.ok (), h) => return h
  | (.error _, _) => throw .io

/-- The events that reach the log file. -/
def logged (c : Configuration) (events : List Event) : List Event :=
  if c.logging.sink = .file then events else []

end Dossier.Configuration
