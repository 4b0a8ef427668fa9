import Dossier.Sql.Document

/-!
# Paths of the JSON functions

A path is `$` and then steps: a key, quoted or bare, or the index of an item. `PathStep.parse` reads
the steps, `Tree.follow` walks them, and `Value.extract?` and `Value.typeAt?` are the functions
`json_extract` and `json_type` of a text and a path. A malformed step is a fault of the engine only
where the walk reaches it.
-/

namespace Dossier

open Text

/-- A step of a path. -/
inductive PathStep
  | member (name : String)
  | item (index : Nat)
  | fromEnd (back : Nat)
  | malformed
deriving DecidableEq, Repr

/-- The end of a walk: a value, nothing, or a malformed step. -/
inductive Found (α : Type)
  | value (a : α)
  | nothing
  | malformed

namespace PathStep

/-- A quoted key up to its closing quote, which a backslash keeps from closing, and the rest. -/
def quotedKey? : List Char → Option (List Char × List Char)
  | [] => none
  | '"' :: rest => some ([], rest)
  | '\\' :: c :: rest => (quotedKey? rest).map fun (key, rest) => ('\\' :: c :: key, rest)
  | c :: rest => (quotedKey? rest).map fun (key, rest) => (c :: key, rest)

/-- The step inside brackets. -/
def ofIndex (inner : List Char) : PathStep :=
  match inner with
  | ['#'] => fromEnd 0
  | '#' :: '-' :: ds =>
    if !ds.isEmpty && ds.all Char.isDigit then fromEnd (decimalNumber ds) else malformed
  | ds => if !ds.isEmpty && ds.all Char.isDigit then item (decimalNumber ds) else malformed

def isBareKeyChar (c : Char) : Bool := c != '.' && c != '['

/-- The steps after the `$`; a malformed one ends them. -/
def steps : (fuel : Nat) → List Char → List PathStep
  | _, [] => []
  | 0, _ => [malformed]
  | fuel + 1, '.' :: '"' :: rest =>
    match quotedKey? rest with
    | some (name, rest) => member (Tree.stringText name) :: steps fuel rest
    | none => [malformed]
  | fuel + 1, '.' :: rest =>
    match rest.takeWhile isBareKeyChar with
    | [] => [malformed]
    | name => member (String.ofList name) :: steps fuel (rest.dropWhile isBareKeyChar)
  | fuel + 1, '[' :: rest =>
    if rest.contains ']' then
      ofIndex (rest.takeWhile (· != ']')) :: steps fuel ((rest.dropWhile (· != ']')).drop 1)
    else [malformed]
  | _, _ => [malformed]

/-- Reads a path; `none` when it does not begin with `$`. -/
def parse (path : String) : Option (List PathStep) :=
  match path.toList with
  | '$' :: rest => some (steps rest.length rest)
  | _ => none

end PathStep

namespace Tree

/-- The item at a place of an array. -/
def item? (place : Nat → Option Nat) : Tree → Option Tree
  | array items => (place items.length).bind (items[·]?)
  | _ => none

/-- The value that a step leads to. -/
def atStep? : PathStep → Tree → Option Tree
  | .member name, t => t.child? name
  | .item n, t => t.item? fun _ => some n
  | .fromEnd n, t => t.item? fun size => if n ≤ size then some (size - n) else none
  | .malformed, _ => none

/-- Walks the steps of a path. -/
def follow : List PathStep → Tree → Found Tree
  | [], t => .value t
  | .malformed :: _, _ => .malformed
  | step :: rest, t =>
    match atStep? step t with
    | some found => follow rest found
    | none => .nothing

end Tree

namespace Value

/-- What stands in a document at a path; `none` is a fault of the engine. -/
def lookupIn? (f : Tree → Value) (document path : Value) : Option Value :=
  match document.text?, path.text? with
  | some s, some p =>
    match Tree.read? s, PathStep.parse p with
    | some t, some steps =>
      match t.follow steps with
      | .value found => some (f found)
      | .nothing => some null
      | .malformed => none
    | _, _ => none
  | _, _ => some null

/-- `json_extract`. -/
def extract? : Value → Value → Option Value := lookupIn? Tree.value

/-- `json_type`. -/
def typeAt? : Value → Value → Option Value := lookupIn? fun t => .text t.typeName

end Value

end Dossier
