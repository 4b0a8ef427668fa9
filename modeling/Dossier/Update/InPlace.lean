import Dossier.Sql.Arithmetic
import Dossier.Sql.Document
import Dossier.Update.Apply
import Dossier.Filter.Term

/-!
# Updates as one SQL expression

`Changes.expressionText` is the expression that makes the changes inside the engine, with
`expressionParams` for its placeholders; `Changes.edit` is what it makes of a body. The engine would
skip a write that a value stands in the way of, so `Changes.guards` lists the conditions under which
the changes fail on a body, each with its error, in the order in which applying them would meet it.
-/

namespace Dossier

/-- An argument pair of `json_set`: a path and the document or the sum to write there. -/
inductive Assignment
  | document (path : FieldPath) (value : Json)
  | sum (path : FieldPath) (delta : Number)

namespace Assignment

def path : Assignment → FieldPath
  | document path _ | sum path _ => path

/-- The written value as SQL, with one placeholder. -/
def expression : Assignment → String
  | document _ _ => "json(?)"
  | sum path _ => "COALESCE(" ++ extractText bodyColumn path ++ ", 0) + ?"

/-- The value of the placeholder. -/
def param : Assignment → Value
  | document _ value => .jsonText value
  | sum _ delta => .ofNumber delta

/-- The path and the value as two arguments. -/
def text (a : Assignment) : String := a.path.literal ++ ", " ++ a.expression

/-- What the expression writes into a body: a sum starts from zero where the body has nothing. -/
def value (body : Tree) : Assignment → Tree
  | document _ value => value.tree
  | sum path delta =>
    let current := ((body.lookup? path.segments).map Tree.value).getD .null
    .ofValue (Value.add (if current.isNull then .integer 0 else current) (.ofNumber delta))

end Assignment

/-- A condition under which changes cannot be made on a body. -/
inductive Guard
  | notAContainer (path ancestor : FieldPath)
  | notANumber (path : FieldPath)
  | tooGreat (path : FieldPath) (bound : Int)
  | tooSmall (path : FieldPath) (bound : Int)

namespace Guard

/-- `json_type` at a path. -/
def typeText (path : FieldPath) : String :=
  "json_type(" ++ bodyColumn ++ ", " ++ path.literal ++ ")"

/-- An integer at the path that is past a bound. -/
def boundText (path : FieldPath) (op : Value.Comparison) : String :=
  "(" ++ typeText path ++ " = 'integer' AND " ++ extractText bodyColumn path ++ " " ++ op.text
    ++ " ?)"

/-- The condition as SQL. -/
def text : Guard → String
  | notAContainer _ ancestor => typeText ancestor ++ " <> 'object'"
  | notANumber path => typeText path ++ " NOT IN ('integer', 'real')"
  | tooGreat path _ => boundText path .gt
  | tooSmall path _ => boundText path .lt

/-- The values of the placeholders. -/
def params : Guard → List Value
  | notAContainer .. | notANumber _ => []
  | tooGreat _ bound | tooSmall _ bound => [.integer bound]

/-- The error that applying the changes would end in. -/
def failure : Guard → ApplyError
  | notAContainer path ancestor => .notAContainer path.text ancestor.leaf
  | notANumber path => .notANumber path.text
  | tooGreat path _ | tooSmall path _ => .overflow path.text

/-- An integer in the body at the path is past a bound. -/
def pastBound (body : Tree) (path : FieldPath) (op : Value.Comparison) (bound : Int) : Truth :=
  match body.lookup? path.segments with
  | none => none
  | some t =>
    Truth.and (some (t.typeName == "integer"))
      (Value.test op .none .binary t.value (.integer bound))

/-- The truth of the condition for a body; unknown where the body has nothing. -/
def holds (body : Tree) : Guard → Truth
  | notAContainer _ ancestor =>
    (body.lookup? ancestor.segments).map fun t => t.typeName != "object"
  | notANumber path =>
    (body.lookup? path.segments).map fun t => t.typeName != "integer" && t.typeName != "real"
  | tooGreat path bound => pastBound body path .gt bound
  | tooSmall path bound => pastBound body path .lt bound

end Guard

namespace FieldPath

/-- The guards against values that stand in the way of a path. -/
def containerGuards (p : FieldPath) : List Guard := p.ancestors.map (.notAContainer p)

/-- The guard against an integer that would leave the 64 signed bits. -/
def overflowGuard? (p : FieldPath) (delta : Number) : Option Guard :=
  match delta.signed? with
  | some n =>
    if 0 < n then some (.tooGreat p (0x7fffffffffffffff - n))
    else if n < 0 then some (.tooSmall p (-0x8000000000000000 - n))
    else none
  | none => none

end FieldPath

namespace Changes

/-- What is written, in order: first the assigned values, then the sums. -/
def assignments (c : Changes) : List Assignment :=
  c.set.map (fun e => .document e.1 e.2) ++ c.inc.map (fun e => .sum e.1 e.2)

/-- The body without the removed paths, as SQL. -/
def removalText (c : Changes) : String :=
  if c.unset.isEmpty then bodyColumn
  else "json_remove(" ++ bodyColumn ++ ", " ++ commaList (c.unset.map FieldPath.literal) ++ ")"

/-- The changed body as SQL. -/
def expressionText (c : Changes) : String :=
  if c.assignments.isEmpty then c.removalText
  else "json_set(" ++ c.removalText ++ ", " ++ commaList (c.assignments.map Assignment.text) ++ ")"

/-- The values of the placeholders of the expression. -/
def expressionParams (c : Changes) : List Value := c.assignments.map Assignment.param

/-- The changed body. Every sum is taken over the body as it was. -/
def edit (c : Changes) (body : Tree) : Tree :=
  let removed := c.unset.foldl (fun t p => t.remove p.segments) body
  c.assignments.foldl (fun t a => Tree.set (a.value body) a.path.segments t) removed

/-- The guards of all changes. -/
def guards (c : Changes) : List Guard :=
  c.set.flatMap (fun e => e.1.containerGuards)
    ++ c.inc.flatMap fun e =>
      e.1.containerGuards ++ .notANumber e.1 :: (e.1.overflowGuard? e.2).toList

end Changes

end Dossier
