import Dossier.Field.Resolver
import Dossier.Json.Basic
import Dossier.Sql.Value

/-!
# Filters

A filter is a conjunction: each of its clauses names a field and the conditions on it. A field
whose value is no operator object must equal that value; in an operator object every key starts
with `$`. `Filter.parse` reads the JSON form and `equalities` lists the values that a match pins.
-/

namespace Dossier

open Value (Comparison)

/-- A condition on one field. -/
inductive Condition
  | compare (op : Comparison) (operand : Json)
  | member (negated : Bool) (items : List Json)
  | present (wanted : Bool)
  | pattern (regex : String)

/-- The conditions on one field, under the name it was written with. -/
structure Clause where
  name : String
  field : FieldRef
  conditions : List Condition

/-- A conjunction of clauses; the empty one selects every document. -/
structure Filter where
  clauses : List Clause

/-- The key starts with `$`. -/
def isOperatorKey (key : String) : Bool := key.toList.head? == some '$'

/-- The comparison that an operator key asks for. -/
def comparison? (operator : String) : Option Comparison :=
  match operator with
  | "$eq" => some .eq
  | "$ne" => some .ne
  | "$gt" => some .gt
  | "$gte" => some .ge
  | "$lt" => some .lt
  | "$lte" => some .le
  | _ => none

namespace Condition

/-- Equality and inequality take any operand, a range only numbers and strings. -/
def takesOperand (op : Comparison) : Json → Bool
  | .number _ | .string _ => true
  | _ => op = .eq || op = .ne

/-- Reads one operator and its operand. -/
def parse (field operator : String) (operand : Json) : Except CompileError Condition :=
  match comparison? operator with
  | some op =>
    if takesOperand op operand then .ok (.compare op operand)
    else .error (.invalidOperand field operator .range)
  | none =>
    match operator, operand with
    | "$in", .array items => .ok (.member false items)
    | "$in", _ => .error (.invalidOperand field operator .array)
    | "$nin", .array items => .ok (.member true items)
    | "$nin", _ => .error (.invalidOperand field operator .array)
    | "$exists", .bool wanted => .ok (.present wanted)
    | "$exists", _ => .error (.invalidOperand field operator .boolean)
    | "$regex", .string regex => .ok (.pattern regex)
    | "$regex", _ => .error (.invalidOperand field operator .string)
    | _, _ => .error (.unknownOperator field operator)

/-- Reads the value of a field: an operator object, or a value that the field must equal. -/
def parseAll (field : String) : Json → Except CompileError (List Condition)
  | .object entries =>
    if entries.any fun e => isOperatorKey e.1 then
      if entries.all fun e => isOperatorKey e.1 then
        entries.mapM fun e => parse field e.1 e.2
      else .error (.mixedOperators field)
    else .ok [.compare .eq (.object entries)]
  | value => .ok [.compare .eq value]

end Condition

namespace Clause

/-- Reads one entry of a filter. -/
def parse (name : String) (value : Json) : Except CompileError Clause := do
  let field ← FieldRef.parse name
  return ⟨name, field, ← Condition.parseAll name value⟩

end Clause

namespace Filter

/-- Reads a filter; null stands for the empty one. -/
def parse : Json → Except CompileError Filter
  | .null => .ok ⟨[]⟩
  | .object entries => do return ⟨← entries.mapM fun e => Clause.parse e.1 e.2⟩
  | _ => .error (.notAnObject .filter)

/-- The values that a match must equal, with the field of each. -/
def equalities (f : Filter) : List (Clause × Json) :=
  f.clauses.flatMap fun clause => clause.conditions.filterMap fun
    | .compare .eq operand => some (clause, operand)
    | _ => none

end Filter

end Dossier
