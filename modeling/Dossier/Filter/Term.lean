import Dossier.Filter.Basic
import Dossier.Sql.Like
import Dossier.Text.Ascii

/-!
# Filters as SQL

Of a regular expression only the anchors and the literal text count (`likePattern`). `^` in front and `$` at the end leave out
the wildcard on their side; a backslash before punctuation is dropped; the metacharacters of `LIKE` are escaped. A final `$` is
an anchor unless a backslash stands before it.

A `Term` is a condition as the engine takes it: `text` is its SQL with a `?` for each value, `params` are those values from left
to right, and `holds` is its truth for a row. A `Predicate` is a conjunction of terms. `Filter.predicate` compiles a filter; a
filter on a number compares a body's value as a double, a system column as it is.

The engine checks how deep an expression is when it has read it (`Predicate.spans`), and how long a pattern is when it gets to
the pattern (`Predicate.faults`).
-/

namespace Dossier

/-! ## Regular expressions as patterns -/

section Patterns

open Text

/-- The escape character of the patterns made here. -/
def likeEscape : Char := '\\'

/-- Drops the backslashes before punctuation. -/
def dropEscapes : List Char → List Char
  | '\\' :: c :: rest =>
    if isPunctuation c then c :: dropEscapes rest else '\\' :: dropEscapes (c :: rest)
  | c :: rest => c :: dropEscapes rest
  | [] => []

/-- A literal character in a pattern. -/
def likeLiteral (c : Char) : List Char :=
  if c = '%' || c = '_' || c = likeEscape then [likeEscape, c] else [c]

/-- The text ends in an anchor. -/
def endsAnchored (cs : List Char) : Bool :=
  match cs.reverse with
  | '$' :: '\\' :: _ => false
  | '$' :: _ => true
  | _ => false

/-- The pattern of a regular expression. -/
def likePattern (regex : String) : String :=
  let cs := regex.toList
  let anchoredStart := cs.head? == some '^'
  let cs := if anchoredStart then cs.drop 1 else cs
  let anchoredEnd := endsAnchored cs
  let cs := if anchoredEnd then cs.dropLast else cs
  String.ofList <|
    (if anchoredStart then [] else ['%'])
      ++ (dropEscapes cs).flatMap likeLiteral
      ++ (if anchoredEnd then [] else ['%'])

end Patterns

/-! ## Terms -/

open Value (Comparison)

namespace Operand

/-- The affinity of the expression: identifiers are texts, times are numbers. -/
def affinity : Operand → Value.Affinity
  | system .id => .text
  | system _ => .numeric
  | promoted _ => .blob
  | extract _ => .none

end Operand

/-- A condition on a row in SQL. -/
inductive Term
  | isNull (x : Operand)
  | notNull (x : Operand)
  | compare (x : Operand) (op : Comparison) (value : Value)
  | compareReal (x : Operand) (op : Comparison) (value : Value)
  | member (x : Operand) (negated : Bool) (values : List Value)
  | like (x : Operand) (pattern : String)
  | constant (b : Bool)

/-- Parts with a separator between them. -/
def commaList (parts : List String) : String := joinWith ", " parts

namespace Term

/-- The SQL of a term. -/
def text : Term → String
  | isNull x => x.text ++ " IS NULL"
  | notNull x => x.text ++ " IS NOT NULL"
  | compare x op _ => x.text ++ " " ++ op.text ++ " ?"
  | compareReal x op _ => "CAST(" ++ x.text ++ " AS REAL) " ++ op.text ++ " ?"
  | member x negated values =>
    x.text ++ (if negated then " NOT IN (" else " IN (") ++ commaList (values.map fun _ => "?") ++ ")"
  | like x _ => x.text ++ " LIKE ? ESCAPE '\\'"
  | constant b => if b then "1" else "0"

/-- The values of the placeholders from left to right. -/
def params : Term → List Value
  | isNull _ | notNull _ | constant _ => []
  | compare _ _ v | compareReal _ _ v => [v]
  | member _ _ vs => vs
  | like _ pattern => [.text pattern]

/-- The truth of a term when `read` gives the values of a row. -/
def holds (read : Operand → Value) : Term → Truth
  | isNull x => some (read x).isNull
  | notNull x => some !(read x).isNull
  | compare x op v => Value.test op x.affinity .binary (read x) v
  | compareReal x op v => Value.test op .real .binary (read x).castReal v
  | member x negated vs =>
    let found := Value.member x.affinity .binary (read x) vs
    if negated then found.not else found
  | like x pattern => Value.like (some likeEscape) (read x) (.text pattern)
  | constant b => some b

end Term

/-- A conjunction of terms; the empty one is no condition at all. -/
abbrev Predicate := List Term

namespace Predicate

/-- The terms with `AND` between them. -/
def text (p : Predicate) : String := joinWith " AND " (p.map Term.text)

/-- The values of the placeholders from left to right. -/
def params (p : Predicate) : List Value := p.flatMap Term.params

/-- The `WHERE` clause, or nothing. -/
def whereText (p : Predicate) : String := if p.isEmpty then "" else " WHERE " ++ p.text

/-- The truth of the conjunction. -/
def holds (read : Operand → Value) (p : Predicate) : Truth := Truth.all (p.map (Term.holds read))

end Predicate

/-! ## What the engine checks -/

/-- What the engine keeps of an expression that it has read: its depth, and whether it is the number 0. -/
structure Span where
  depth : Nat
  isZero : Bool

/-- The span of a conjunction. One with 0 is 0. -/
def Span.and (a b : Span) : Span :=
  if a.isZero || b.isZero then ⟨1, true⟩ else ⟨1 + max a.depth b.depth, false⟩

/-- The depth of an operand: an extraction has arguments. -/
def Operand.depth : Operand → Nat
  | system _ | promoted _ => 1
  | extract _ => 2

namespace Term

/-- The depth of a term. The engine reads a membership in a list of one value as an equality with a sign before the value. -/
def depth : Term → Nat
  | isNull x | notNull x | compare x _ _ | like x _ => 1 + x.depth
  | compareReal x _ _ => 2 + x.depth
  | member x negated vs => (if negated then 2 else 1) + (if vs.length = 1 then max x.depth 2 else x.depth)
  | constant _ => 1

/-- The constant that is false. -/
def isZero : Term → Bool
  | constant b => !b
  | _ => false

def span (t : Term) : Span := ⟨t.depth, t.isZero⟩

/-- The term has a pattern that is too long. -/
def isTooLong : Term → Bool
  | like _ pattern => Like.isTooLong pattern
  | _ => false

end Term

namespace Predicate

/-- The spans of the terms together with ever more of those after them. -/
def spansFrom (s : Span) : Predicate → List Span
  | [] => [s]
  | t :: ts => s :: spansFrom (s.and t.span) ts

/-- The spans of the conjunctions that the engine makes while it reads the terms, that of all terms last. -/
def spans : Predicate → List Span
  | [] => []
  | t :: ts => spansFrom t.span ts

/-- The depth of the conjunction. -/
def depth (p : Predicate) : Nat := (p.spans.getLast?.map Span.depth).getD 0

/-- The engine gets to a pattern that is too long when it decides the terms one after the other. -/
def reachesTooLong (read : Operand → Value) : Predicate → Bool
  | [] => false
  | t :: ts => t.isTooLong || ((t.holds read).isTrue && reachesTooLong read ts)

/-- Deciding the conjunction is a fault. One with a constant that is false is decided without a look at the row. -/
def faults (read : Operand → Value) (p : Predicate) : Bool := !p.any Term.isZero && p.reachesTooLong read

end Predicate

namespace Condition

/-- A comparison: null is tested for, a number of a body is compared as a double in a range. -/
def compareTerm (x : Operand) (op : Comparison) (operand : Json) : Term :=
  match op, operand with
  | .eq, .null => .isNull x
  | .ne, .null => .notNull x
  | .eq, _ | .ne, _ => .compare x op (.ofJson operand)
  | _, .number n =>
    match x with
    | .system _ => .compare x op (.ofNumber n)
    | _ => .compareReal x op (.ofNumber n)
  | _, _ => .compare x op (.ofJson operand)

/-- The condition as a term on an operand. Membership in the empty list is a constant. -/
def term (x : Operand) : Condition → Term
  | .compare op operand => compareTerm x op operand
  | .member negated [] => .constant negated
  | .member negated items => .member x negated (items.map .ofJson)
  | .present true => .notNull x
  | .present false => .isNull x
  | .pattern regex => .like x (likePattern regex)

end Condition

namespace Filter

/-- The terms of a filter, in its order. -/
def predicate (f : Filter) (r : Resolver) : Predicate :=
  f.clauses.flatMap fun clause => clause.conditions.map (Condition.term (r.operand clause.field))

end Filter

end Dossier
