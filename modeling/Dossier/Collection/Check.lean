import Dossier.Collection.Promotion
import Dossier.Digest.Sha256
import Dossier.Raw.Predicate
import Dossier.Text.Letter

/-!
# Check constraints

A check constraint is an expression over the fields of a document that no write may make false. It
is enforced by two triggers, one for inserts and one for body updates, named after the path and a
digest of the expression: the same expression is installed once, different ones add up.
-/

namespace Dossier

open Sql Text

/-- A check constraint as its registration answers it. -/
structure CheckConstraint where
  name : String
  path : String
  expression : String
  createdAt : Int
deriving DecidableEq, Repr

namespace CheckConstraint

/-- The order of a listing: by the time of the registration, then by the name. -/
def before (a b : CheckConstraint) : Bool :=
  a.createdAt < b.createdAt || (a.createdAt == b.createdAt && decide (a.name ≤ b.name))

end CheckConstraint

namespace CheckEntry

/-- The constraint as it is answered. -/
def shown (c : CheckEntry) : CheckConstraint := ⟨c.name, c.path.text, c.expression, c.createdAt⟩

end CheckEntry

namespace Check

/-- The hexadecimal digits of the digest in a constraint's name. -/
def digestDigits : Nat := 12

/-- The digest of an expression in a constraint's name. -/
def digest (expression : String) : String :=
  String.ofList (((Sha256.digest expression.toUTF8.toList).flatMap fun b =>
    hexDigits 2 b.toNat).take digestDigits)

/-- What a violated constraint is answered with. -/
def message (name : CollectionName) (path : FieldPath) (expression : String) : String :=
  "check constraint failed on " ++ name.text ++ "." ++ path.text ++ ": " ++ expression

/-- What stands after the condition of a constraint's trigger. -/
def triggerBody (message : String) : String :=
  " BEGIN SELECT RAISE(ABORT, '" ++ escapeLiteral message ++ "'); END;"

/-- The violation that a trigger looks for: the condition, read together with what stands around it,
must be one expression, and may not bind values. -/
def violation? (condition message : String) : Option Expr := do
  let (tail, _) ← lexemes? (triggerBody message)
  let (ls, count) ← lexemes? ("NOT (" ++ condition ++ ")" ++ triggerBody message)
  let (e, after) ← Grammar.expression ls
  if count = 0 && after == tail then some e else none

/-- The document that a trigger's condition reads. -/
def newBody : String := "NEW." ++ bodyColumn

/-- The triggers of a constraint. -/
def triggers? (name : CollectionName) (check message condition : String) : Option (List Trigger) :=
  (violation? condition message).map fun e =>
    [⟨check ++ "__insert", name.text, .insert, .check e message⟩,
      ⟨check ++ "__update", name.text, .bodyUpdate, .check e message⟩]

end Check

namespace Database

/-- Records a constraint unless there is one of its name, which then stays as it is. -/
def recordCheck (db : Database) (c : CheckEntry) : Database :=
  if db.checks.any fun d => d.collection = c.collection && d.name = c.name then db
  else { db with checks := db.checks ++ [c] }

end Database

namespace Collection

open Dossier.Action

/-- The expression of a constraint without the blanks around it. -/
def checkExpression (expression : String) : Except StoreError String :=
  let trimmed := trim expression
  if trimmed.isEmpty then .error (.invalid .emptyCheck)
  else if trimmed.toList.contains '?' then .error (.invalid .checkParameters)
  else .ok trimmed

/-- The steps of a registration. -/
def installCheck (c : Collection) (path : FieldPath) (column expression : String) :
    Action CheckConstraint := do
  let name := c.name.derived [column, "check_" ++ Check.digest expression]
  let message := Check.message c.name path expression
  match Check.triggers? c.name name message (Raw.resolve Check.newBody expression) with
  | none => throw (.engine "syntax error")
  | some triggers =>
    alter fun db => db.replaceTriggers triggers
    let time ← now
    alter fun db => .ok (db.recordCheck ⟨c.name.text, name, path, expression, time⟩)
    match ← read fun db => .ok ((db.checksOf c.name.text).find? fun d => d.name = name) with
    | some entry => return entry.shown
    | none => throw (.invalid (.checkNotRecorded name))

/-- Installs a check constraint under a path. -/
def addCheck (c : Collection) (path expression : String) : Action CheckConstraint := do
  let path ← ofRequest (FieldPath.parse path)
  let expression ← ofStore (checkExpression expression)
  let column ← ofRequest path.targetColumn
  let check ← transaction (c.installCheck path column expression)
  report (.checkInstalled c.name.text path.text expression)
  return check

/-- The check constraints of the collection, oldest first. -/
def checks (c : Collection) : Action (List CheckConstraint) :=
  read fun db => .ok (((db.checksOf c.name.text).map CheckEntry.shown).mergeSort
    CheckConstraint.before)

end Collection

end Dossier
