import Dossier.Field.Resolver
import Dossier.Filter.Basic

/-!
# Updates

An update replaces a document's body or changes it at some paths. The operator form has the
operators `$set`, `$unset` and `$inc`, each with its paths; no two of its paths may overlap, and
none may begin with a reserved field. `Update.parse` reads the JSON form.
-/

namespace Dossier

/-- The changes of an operator update, in the order of each operator. -/
structure Changes where
  set : List (FieldPath × Json)
  unset : List FieldPath
  inc : List (FieldPath × Number)

/-- An update: changes at paths, or a whole new body. -/
inductive Update
  | change (changes : Changes)
  | replace (body : Fields)

namespace Changes

/-- No changes yet. -/
def none : Changes := ⟨[], [], []⟩

/-- Nothing to change. -/
def isEmpty (c : Changes) : Bool := c.set.isEmpty && c.unset.isEmpty && c.inc.isEmpty

/-- All paths that the changes write. -/
def paths (c : Changes) : List FieldPath := c.set.map (·.1) ++ c.unset ++ c.inc.map (·.1)

/-- The first two overlapping paths give the longer one, the earlier one when they are equal. -/
def conflict? : List FieldPath → Option FieldPath
  | [] => .none
  | p :: rest =>
    match rest.find? p.overlaps with
    | some q => some (if p.segments.length < q.segments.length then q else p)
    | .none => conflict? rest

end Changes

namespace Update

/-- Reads a path to change: its first segment is no reserved field. -/
def parsePath (raw : String) : Except CompileError FieldPath := do
  let path ← FieldPath.parse raw
  if isReserved path.head then throw (.protectedField raw)
  return path

/-- The entries of the operand of `$set` or `$inc`. -/
def entries (operator : String) : Json → Except CompileError Fields
  | .object fields => .ok fields
  | _ => .error (.invalidOperand operator operator .pairs)

/-- Reads an entry of `$set`. -/
def parseSet (entry : String × Json) : Except CompileError (FieldPath × Json) := do
  return (← parsePath entry.1, entry.2)

/-- Reads an entry of `$inc`. -/
def parseInc (operator : String) (entry : String × Json) :
    Except CompileError (FieldPath × Number) :=
  match entry.2 with
  | .number n => do return (← parsePath entry.1, n)
  | _ => .error (.invalidOperand entry.1 operator .increment)

/-- Reads an entry of an array of paths. -/
def parseUnsetItem : Json → Except CompileError FieldPath
  | .string raw => parsePath raw
  | _ => .error (.invalidOperand "$unset" "$unset" .pathEntries)

/-- Reads the operand of `$unset`: an object, of which the keys count, or an array of paths. -/
def parseUnset : Json → Except CompileError (List FieldPath)
  | .object fields => fields.mapM fun e => parsePath e.1
  | .array items => items.mapM parseUnsetItem
  | _ => .error (.invalidOperand "$unset" "$unset" .paths)

/-- Adds the changes of one operator. -/
def addOperator (c : Changes) (entry : String × Json) : Except CompileError Changes := do
  let (operator, operand) := entry
  match operator with
  | "$set" => return { c with set := c.set ++ (← (← entries operator operand).mapM parseSet) }
  | "$unset" => return { c with unset := c.unset ++ (← parseUnset operand) }
  | "$inc" =>
    return { c with inc := c.inc ++ (← (← entries operator operand).mapM (parseInc operator)) }
  | _ => throw (.unknownUpdateOperator operator)

/-- Reads the operator form. -/
def parseOperators (fields : Fields) : Except CompileError Changes := do
  let changes ← fields.foldlM addOperator .none
  if changes.isEmpty then throw .emptyUpdate
  match Changes.conflict? changes.paths with
  | some path => throw (.conflictingPaths path.text)
  | none => return changes

/-- Reads an update. -/
def parse : Json → Except CompileError Update
  | .object fields =>
    if fields.isEmpty then .error .emptyUpdate
    else if fields.any fun e => isOperatorKey e.1 then
      if fields.all fun e => isOperatorKey e.1 then (parseOperators fields).map .change
      else .error (.mixedOperators "update document")
    else match (Fields.keys fields).find? isReserved with
      | some field => .error (.protectedField field)
      | none => .ok (.replace fields)
  | _ => .error (.notAnObject .update)

/-- The update sets some path. -/
def hasSet : Update → Bool
  | change c => !c.set.isEmpty
  | replace _ => false

end Update

end Dossier
