import Dossier.Json.Basic
import Dossier.Toml.Scalar

/-!
# TOML documents

`Toml.read?` reads a document as one object. A document is a list of lines: headers of tables, headers
of arrays of tables, and keys with their values; blank lines and comments may stand between them.
Containers nest at most `nestingLimit` deep.

A `Node` is what a key of a table holds while the document is read. A table remembers how it came
about, because that decides what may still be said about it: a header defines a table once, dotted keys
add only to tables that no header has defined, and nothing is added to a value. An array of tables holds
its newest table first; paths go through that one.
-/

namespace Dossier.Toml

/-! ## Tables -/

/-- How a table came about: as part of the path of a header, as part of a dotted key, or by a header
of its own. -/
inductive Origin
  | implied
  | dotted
  | header
deriving DecidableEq, Repr

/-- What a key holds. -/
inductive Node
  | value (j : Json)
  | table (origin : Origin) (entries : List (String × Node))
  | tables (items : List (List (String × Node)))

/-- The keys of a table in order. -/
abbrev Entries := List (String × Node)

namespace Entries

/-- What a key holds. -/
def get? (t : Entries) (key : String) : Option Node := (t.find? fun e => e.1 = key).map (·.2)

/-- Makes a key hold something, in its place or at the end. -/
def put (t : Entries) (key : String) (n : Node) : Entries :=
  if t.any fun e => e.1 = key then t.map fun e => if e.1 = key then (key, n) else e
  else t ++ [(key, n)]

/-- Adds a key that the table does not have yet. -/
def add? (t : Entries) (key : String) (n : Node) : Option Entries :=
  if (get? t key).isNone then some (t ++ [(key, n)]) else none

/-- Changes the table that the path of a header leads to, making the tables that are missing. -/
def change? (f : Entries → Option Entries) : List String → Entries → Option Entries
  | [], t => f t
  | key :: rest, t =>
    match get? t key with
    | none => do return put t key (.table .implied (← change? f rest []))
    | some (.table origin entries) => do return put t key (.table origin (← change? f rest entries))
    | some (.tables (newest :: older)) => do
      return put t key (.tables ((← change? f rest newest) :: older))
    | some _ => none

/-- Defines a table by its header, unless it is there for another reason than being implied. -/
def define? (key : String) (t : Entries) : Option Entries :=
  match get? t key with
  | none => some (put t key (.table .header []))
  | some (.table .implied entries) => some (put t key (.table .header entries))
  | some _ => none

/-- Adds a table to an array of tables. -/
def append? (key : String) (t : Entries) : Option Entries :=
  match get? t key with
  | none => some (put t key (.tables [[]]))
  | some (.tables items) => some (put t key (.tables ([] :: items)))
  | some _ => none

/-- Gives a value to a dotted key. -/
def assign? (j : Json) : List String → Entries → Option Entries
  | [], _ => none
  | [key], t => add? t key (.value j)
  | key :: rest, t =>
    match get? t key with
    | none => do return put t key (.table .dotted (← assign? j rest []))
    | some (.table .header _) => none
    | some (.table origin entries) => do return put t key (.table origin (← assign? j rest entries))
    | some _ => none

end Entries

mutual
/-- What a key holds, as a value. -/
def Node.json : Node → Json
  | .value j => j
  | .table _ entries => .object (entryValues entries)
  | .tables items => .array (tableValues items).reverse

/-- The keys of a table with their values. -/
def entryValues : List (String × Node) → Fields
  | [] => []
  | (key, n) :: rest => (key, n.json) :: entryValues rest

/-- Tables as values. -/
def tableValues : List (List (String × Node)) → List Json
  | [] => []
  | t :: rest => .object (entryValues t) :: tableValues rest
end

/-! ## Blanks -/

/-- What follows the blanks of a line. -/
def skipSpace (cs : List Char) : List Char := cs.dropWhile isSpace

/-- What follows blanks, line ends and comments. -/
def skip? (inComment : Bool) : List Char → Option (List Char)
  | [] => some []
  | '\n' :: rest => skip? false rest
  | '\r' :: '\n' :: rest => skip? false rest
  | c :: rest =>
    if inComment then if isPlain c then skip? true rest else none
    else if isSpace c then skip? false rest
    else if c == '#' then skip? true rest
    else some (c :: rest)

/-- What follows the rest of a line that says nothing more. -/
def endLine? (cs : List Char) : Option (List Char) :=
  let rest := match skipSpace cs with
    | '#' :: comment => comment.dropWhile isPlain
    | rest => rest
  match rest with
  | [] => some []
  | '\n' :: rest => some rest
  | '\r' :: '\n' :: rest => some rest
  | _ => none

/-! ## Keys -/

/-- A character of a key without quotes. -/
def isKeyChar (c : Char) : Bool := c.isAlphanum || c == '_' || c == '-'

/-- One part of a key: in quotes, on one line, or bare. -/
def keyPart? (cs : List Char) : Option (String × List Char) :=
  match cs with
  | [] => none
  | c :: rest =>
    if c = '"' || c = '\'' then
      if [c, c].isPrefixOf rest then none else string? cs
    else
      match cs.takeWhile isKeyChar with
      | [] => none
      | part => some (String.ofList part, cs.dropWhile isKeyChar)

/-- A dotted key; `fuel` bounds its parts. -/
def keyParts? : (fuel : Nat) → List Char → Option (List String × List Char)
  | 0, _ => none
  | fuel + 1, cs => do
    let (part, rest) ← keyPart? (skipSpace cs)
    match skipSpace rest with
    | '.' :: rest => do
      let (parts, rest) ← keyParts? fuel rest
      return (part :: parts, rest)
    | rest => return ([part], rest)

/-- A dotted key and what follows it and its blanks. -/
def key? (cs : List Char) : Option (List String × List Char) := keyParts? (cs.length + 1) cs

/-! ## Values -/

/-- The most containers around a value. -/
def nestingLimit : Nat := 80

/-- A value that is no container. -/
def scalar? (cs : List Char) : Option (Json × List Char) :=
  match cs with
  | '"' :: _ => (string? cs).map fun r => (.string r.1, r.2)
  | '\'' :: _ => (string? cs).map fun r => (.string r.1, r.2)
  | _ => (word? (takeWord cs).1).map (·, (takeWord cs).2)

mutual
/-- A value at the front; `depth` bounds its containers, `fuel` the items of each. -/
def value? (depth fuel : Nat) (cs : List Char) : Option (Json × List Char) :=
  match depth, cs with
  | depth + 1, '[' :: rest => do
    let (items, rest) ← items? depth fuel fuel rest
    return (.array items, rest)
  | depth + 1, '\x7b' :: rest => do
    let (t, rest) ← members? depth fuel fuel [] rest
    return (.object (entryValues t), rest)
  | _, _ => scalar? cs
termination_by (depth, 0)

/-- The items of an array up to its end. -/
def items? (depth fuel : Nat) : (left : Nat) → List Char → Option (List Json × List Char)
  | 0, _ => none
  | left + 1, cs => do
    match ← skip? false cs with
    | ']' :: rest => return ([], rest)
    | cs => do
      let (item, rest) ← value? depth fuel cs
      match ← skip? false rest with
      | ',' :: rest => do
        let (items, rest) ← items? depth fuel left rest
        return (item :: items, rest)
      | ']' :: rest => return ([item], rest)
      | _ => none
termination_by left => (depth, left + 1)

/-- The members of a table between braces up to its end, after those already read. -/
def members? (depth fuel : Nat) : (left : Nat) → Entries → List Char →
    Option (Entries × List Char)
  | 0, _, _ => none
  | left + 1, t, cs => do
    match ← skip? false cs with
    | '\x7d' :: rest => return (t, rest)
    | cs => do
      let (key, rest) ← key? cs
      match rest with
      | '=' :: rest => do
        let (j, rest) ← value? depth fuel (skipSpace rest)
        let t ← t.assign? j key
        match ← skip? false rest with
        | ',' :: rest => members? depth fuel left t rest
        | '\x7d' :: rest => return (t, rest)
        | _ => none
      | _ => none
termination_by left => (depth, left + 1)
end

/-! ## Lines -/

/-- A document while it is read: its tables, and the path of the table that keys belong to. -/
structure Reading where
  root : Entries
  table : List String

namespace Reading

/-- Changes a table by what the last part of a path names. -/
def atPath? (r : Reading) (f : String → Entries → Option Entries) (path : List String) :
    Option Reading := do
  let last ← path.getLast?
  return ⟨← r.root.change? (f last) path.dropLast, path⟩

/-- A line, which starts with no blank, and what follows it. -/
def line? (r : Reading) (cs : List Char) : Option (Reading × List Char) :=
  match cs with
  | '[' :: '[' :: rest => do
    let (path, rest) ← key? rest
    match rest with
    | ']' :: ']' :: rest => return (← r.atPath? Entries.append? path, ← endLine? rest)
    | _ => none
  | '[' :: rest => do
    let (path, rest) ← key? rest
    match rest with
    | ']' :: rest => return (← r.atPath? Entries.define? path, ← endLine? rest)
    | _ => none
  | _ => do
    let (key, rest) ← key? cs
    match rest with
    | '=' :: rest => do
      let (j, rest) ← value? nestingLimit cs.length (skipSpace rest)
      let root ← r.root.change? (Entries.assign? j key) r.table
      return ({ r with root }, ← endLine? rest)
    | _ => none

/-- All lines; `fuel` bounds their number. -/
def lines? : (fuel : Nat) → Reading → List Char → Option Reading
  | 0, _, _ => none
  | fuel + 1, r, cs => do
    match ← skip? false cs with
    | [] => return r
    | cs => do
      let (r, rest) ← r.line? cs
      lines? fuel r rest

end Reading

/-- The mark that may stand in front of a document. -/
def byteOrderMark : Char := '\ufeff'

/-- Reads a document. -/
def read? (text : String) : Option Json := do
  let cs := text.toList
  let cs := if cs.head? == some byteOrderMark then cs.drop 1 else cs
  let r ← Reading.lines? (cs.length + 1) ⟨[], []⟩ cs
  return .object (entryValues r.root)

end Dossier.Toml
