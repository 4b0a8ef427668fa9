import Dossier.Update.Basic

/-!
# Applying updates to a document

`Fields.getAt?`, `writeAt` and `eraseAt` read and change a body at a path. Writing makes the objects
that are missing on its way and fails where a value that is no object stands in it; erasing does
nothing there. `Changes.steps` lists the changes in the order they are made: first the removals,
then the assignments, then the increments. A step that fails changes nothing, and the steps before
it stay made.
-/

namespace Dossier

namespace Fields

/-- The value at a path. -/
def getAt? : List String → Fields → Option Json
  | [], _ => none
  | [leaf], fields => fields.get? leaf
  | s :: rest, fields =>
    match fields.get? s with
    | some (.object inner) => getAt? rest inner
    | _ => none

/-- Writes at a path what `f` makes of the value there; `path` is the path's text. -/
def writeAt (path : String) (f : Option Json → Except ApplyError Json) :
    List String → Fields → Except ApplyError Fields
  | [], fields => .ok fields
  | [leaf], fields => do return fields.put leaf (← f (fields.get? leaf))
  | s :: rest, fields =>
    match fields.get? s with
    | none => do return fields.put s (.object (← writeAt path f rest []))
    | some (.object inner) => do return fields.put s (.object (← writeAt path f rest inner))
    | some _ => .error (.notAContainer path s)

/-- Takes out what stands at a path. -/
def eraseAt : List String → Fields → Fields
  | [], fields => fields
  | [leaf], fields => fields.erase leaf
  | s :: rest, fields =>
    match fields.get? s with
    | some (.object inner) => fields.put s (.object (eraseAt rest inner))
    | _ => fields

/-- Writes a value at a path. -/
def setAt (path : FieldPath) (value : Json) (fields : Fields) : Except ApplyError Fields :=
  writeAt path.text (fun _ => .ok value) path.segments fields

end Fields

namespace Number

/-- The sum: integers add as integers while 64 signed bits hold the sum, all else as doubles while
the sum is finite. -/
def add? (a b : Number) : Option Number :=
  match a.signed?, b.signed? with
  | some m, some n =>
    if -0x8000000000000000 ≤ m + n ∧ m + n < 0x8000000000000000 then (Whole.ofInt? (m + n)).map .whole else none
  | _, _ =>
    let sum := a.toFloat + b.toFloat
    if sum.isFinite then some (.real sum) else none

/-- The number zero. -/
def zero : Number := .whole ⟨0, by decide⟩

end Number

/-- The value after an increment; a missing one counts as zero. -/
def incremented (path : FieldPath) (delta : Number) : Option Json → Except ApplyError Json
  | none => ((Number.zero.add? delta).map .number).elim (.error (.overflow path.text)) .ok
  | some (.number n) => ((n.add? delta).map .number).elim (.error (.overflow path.text)) .ok
  | some _ => .error (.notANumber path.text)

/-- One change at one path. -/
inductive Step
  | unset (path : FieldPath)
  | set (path : FieldPath) (value : Json)
  | increment (path : FieldPath) (delta : Number)

namespace Step

/-- Makes the change. -/
def apply : Step → Fields → Except ApplyError Fields
  | unset path, fields => .ok (fields.eraseAt path.segments)
  | set path value, fields => fields.setAt path value
  | increment path delta, fields =>
    fields.writeAt path.text (incremented path delta) path.segments

/-- Makes changes one after another up to the first that fails. -/
def run : List Step → Fields → Fields × Option ApplyError
  | [], fields => (fields, none)
  | s :: rest, fields =>
    match s.apply fields with
    | .ok next => run rest next
    | .error e => (fields, some e)

end Step

namespace Changes

/-- The changes in the order they are made. -/
def steps (c : Changes) : List Step :=
  c.unset.map .unset ++ c.set.map (fun e => .set e.1 e.2)
    ++ c.inc.map (fun e => .increment e.1 e.2)

end Changes

namespace Update

/-- The body as far as the update can be made, and what stopped it. -/
def run : Update → Fields → Fields × Option ApplyError
  | replace body, _ => (body, none)
  | change c, fields => Step.run c.steps fields

/-- The updated body. -/
def apply (u : Update) (fields : Fields) : Except ApplyError Fields :=
  match u.run fields with
  | (body, none) => .ok body
  | (_, some e) => .error e

end Update

end Dossier
