import Dossier.Session.Connection
import Dossier.Field.Path

/-!
# Paths and what stands at them

A path is a text with slashes between its parts. A `Disk` knows the directories, the databases and
the other files; `Disk.locate?` walks a path and answers the place it leads to, as long as all that it
walks through are directories. `Disk.makeDirectories?` makes what is missing on the way, and
`Disk.database?` opens what stands at the end.
-/

namespace Dossier

/-- The names from the root to a place. -/
abbrev Location := List String

/-- What stands at a place. -/
inductive Entry
  | directory
  | plain
  | database (file : File)

/-- A tree of files, and the directory that paths start from. -/
structure Disk where
  entries : List (Location × Entry)
  current : Location

namespace Path

/-- The parts of a path between its slashes. -/
def splitSlashes (cs : List Char) : List (List Char) := cs.splitOn '/'

/-- The parts of a path. -/
def parts (path : String) : List String := (splitSlashes path.toList).map String.ofList

/-- The parts that name something: neither empty nor the place itself. -/
def names (path : String) : List String := (parts path).filter fun p => p ≠ "" && p ≠ "."

/-- The path starts at the root. -/
def isRooted (path : String) : Bool := path.toList.head? == some '/'

/-- A path taken from a directory. -/
def within (directory path : String) : String :=
  if isRooted path then path else directory ++ "/" ++ path

/-- Some part of the path has more bytes than allowed. -/
def hasLongPart (limit : Nat) (path : String) : Bool :=
  (parts path).any fun p => limit < p.utf8ByteSize

end Path

namespace Entry

def isDirectory : Entry → Bool
  | directory => true
  | _ => false

end Entry

namespace Disk

/-- The directories that every system has. -/
def systemDirectories : List Location :=
  [[], ["bin"], ["dev"], ["etc"], ["home"], ["proc"], ["root"], ["tmp"], ["usr"], ["var"]]

/-- A disk with the directories of the system and one to work in. -/
def start (current : Location) : Disk where
  entries := (systemDirectories ++ [current]).map (·, .directory)
  current := current

/-- What stands at a place. -/
def entry? (d : Disk) (place : Location) : Option Entry :=
  (d.entries.find? fun e => e.1 = place).map (·.2)

/-- Puts something at a place. -/
def put (d : Disk) (place : Location) (e : Entry) : Disk :=
  { d with entries := (place, e) :: d.entries.filter fun old => old.1 ≠ place }

/-- A directory stands at the place. -/
def isDirectoryAt (d : Disk) (place : Location) : Bool := (d.entry? place).any Entry.isDirectory

/-- Where a path starts. -/
def origin (d : Disk) (path : String) : Location := if Path.isRooted path then [] else d.current

/-- One part of a path further. -/
def move (place : Location) (part : String) : Location :=
  if part = "" || part = "." then place
  else if part = ".." then place.dropLast
  else place ++ [part]

/-- Where a path leads. -/
def locate? (d : Disk) (path : String) : Option Location :=
  (Path.parts path).foldlM
    (fun place part => if d.isDirectoryAt place then some (move place part) else none)
    (d.origin path)

/-- The path leads to a directory. -/
def isDirectory (d : Disk) (path : String) : Bool := (d.locate? path).any d.isDirectoryAt

/-- Where a path leads by its names alone. -/
def place (d : Disk) (path : String) : Location := (Path.names path).foldl move (d.origin path)

/-- Makes the directories on the way that names give, from a place on. -/
def makeDirectories? (d : Disk) (place : Location) : List String → Option Disk
  | [] => some d
  | name :: rest =>
    let next := move place name
    match d.entry? next with
    | some .directory => d.makeDirectories? next rest
    | some _ => none
    | none => (d.put next .directory).makeDirectories? next rest

/-- Makes the directories above what a path names. -/
def makeParents? (d : Disk) (path : String) : Option Disk :=
  d.makeDirectories? (d.origin path) (Path.names path).dropLast

/-- A file can be written at the end of the path. -/
def canWrite (d : Disk) (path : String) : Bool :=
  match d.locate? path with
  | some place =>
    d.isDirectoryAt place.dropLast && !d.isDirectoryAt place
      && (Path.parts path).getLast?.any (fun p => p ≠ "" && p ≠ ".")
  | none => false

/-- The most bytes of the path of a database, and of its name: the engine puts the names of its
own files beside it. -/
def pathRoom : Nat := 504
def nameRoom : Nat := 247

/-- The bytes of a place's path. -/
def length (place : Location) : Nat := place.foldr (fun name n => name.utf8ByteSize + 1 + n) 0

/-- The database at a place: what stands there, or a new one. -/
def database? (d : Disk) (place : Location) : Option File :=
  if pathRoom < length place || place.getLast?.any (fun n => nameRoom < n.utf8ByteSize) then none
  else match d.entry? place with
    | none => some .empty
    | some (.database file) => some file
    | some _ => none

end Disk

end Dossier
