import Dossier.Sql.Arithmetic
import Dossier.Sql.JsonPath
import Dossier.Sql.Like
import Dossier.Text.Ascii

/-!
# Expressions of SQL

An `Expr` is what a caller may write in a raw predicate or a check expression. `Expr.resolve` finds
the column of each name in a `Scope`, and `Expr.eval` gives the value for a row; both fail where the
engine refuses the statement. `BETWEEN`, `IN` and `CASE` are written with the other forms.
-/

namespace Dossier

open Text

/-- A column of a stored row. -/
inductive Column
  | id
  | data
  | createdAt
  | updatedAt
  | rowid
  | promoted (name : String)
deriving DecidableEq, Repr

/-- The state of a row: as it is or is about to be, or as it was before a change. -/
inductive Version
  | current
  | previous
deriving DecidableEq, Repr

/-- A column in one state of a row. -/
structure Place where
  version : Version
  column : Column
deriving DecidableEq, Repr

/-- The place that a name stands for, with the qualifier in front of it. -/
abbrev Scope := Option String → String → Option Place

namespace Column

/-- The kind of value that the column prefers. -/
def affinity : Column → Value.Affinity
  | id | data => .text
  | createdAt | updatedAt | rowid => .numeric
  | promoted _ => .blob

end Column

namespace Sql

/-- The types of a cast. -/
inductive CastType
  | integer
  | real
  | text
deriving DecidableEq, Repr

/-- The operators and functions of one operand. -/
inductive UnaryOp
  | not
  | negate
  | keep
  | isNull
  | notNull
  | isTruth (negated wanted : Bool)
  | lower
  | upper
  | length
  | abs
  | typeOf
  | cast (type : CastType)
  | collate (collation : Value.Collation)
deriving DecidableEq, Repr

/-- The operators and functions of two operands. `element` is the equality of `IN`, which follows
the affinity of its left side. -/
inductive BinaryOp
  | and
  | or
  | compare (op : Value.Comparison)
  | is (negated : Bool)
  | element
  | add
  | sub
  | mul
  | div
  | rem
  | concat
  | like
  | ifNull
  | nullIf
  | extract
  | typeAt
deriving DecidableEq, Repr

/-- The operators of three operands: a choice, and `LIKE` with an escape character. -/
inductive TernaryOp
  | choose
  | likeEscape
deriving DecidableEq, Repr

/-- An expression. `unknown` is a call that no function answers. -/
inductive Expr
  | value (v : Value)
  | param (index : Nat)
  | name (qualifier : Option String) (text : String) (doubleQuoted : Bool)
  | column (place : Place)
  | unknown
  | unary (op : UnaryOp) (x : Expr)
  | binary (op : BinaryOp) (x y : Expr)
  | ternary (op : TernaryOp) (x y z : Expr)

namespace Expr

/-! ## Names -/

/-- What a name stands for that names no column: truth constants, and texts in double quotes. -/
def constant? (qualifier : Option String) (text : String) (doubleQuoted : Bool) : Option Expr :=
  if qualifier.isSome then none
  else if doubleQuoted then some (value (.text text))
  else if sameName text "true" then some (value (.ofBool true))
  else if sameName text "false" then some (value (.ofBool false))
  else none

/-- The truth constant that a name without a column stands for. -/
def truthConstant? (scope : Scope) : Expr → Option Bool
  | name none text false =>
    if (scope none text).isSome then none
    else if sameName text "true" then some true
    else if sameName text "false" then some false
    else none
  | _ => none

/-- The expression with its names replaced by places; `none` for a name that stands for nothing.
`IS TRUE` and `IS FALSE` test for truth and not for equality. -/
def resolve (scope : Scope) : Expr → Option Expr
  | name qualifier text doubleQuoted =>
    match scope qualifier text with
    | some place => some (column place)
    | none => constant? qualifier text doubleQuoted
  | unknown => none
  | unary op x => do return unary op (← x.resolve scope)
  | binary op x y => do
    let x ← x.resolve scope
    match op, truthConstant? scope y with
    | .is negated, some wanted => return unary (.isTruth negated wanted) x
    | _, _ => return binary op x (← y.resolve scope)
  | ternary op x y z => do
    return ternary op (← x.resolve scope) (← y.resolve scope) (← z.resolve scope)
  | e => some e

/-! ## Comparison -/

/-- The affinity of an expression. -/
def affinity : Expr → Value.Affinity
  | column place => place.column.affinity
  | unary (.collate _) x => x.affinity
  | unary (.cast .integer) _ => .numeric
  | unary (.cast .real) _ => .real
  | unary (.cast .text) _ => .text
  | _ => .none

/-- The first collation that is written in an expression. -/
def collation? : Expr → Option Value.Collation
  | unary (.collate c) _ => some c
  | unary _ x => x.collation?
  | binary _ x y => x.collation?.or y.collation?
  | ternary _ x y z => (x.collation?.or y.collation?).or z.collation?
  | _ => none

/-- The affinity under which two expressions are compared. -/
def commonAffinity (x y : Expr) : Value.Affinity := x.affinity.between y.affinity

/-- The collation under which two expressions are compared. -/
def commonCollation (x y : Expr) : Value.Collation :=
  (x.collation?.or y.collation?).getD .binary

/-- Equal, null to itself. -/
def same (a : Value.Affinity) (c : Value.Collation) (x y : Value) : Bool :=
  match Value.compare? a c x y with
  | some o => o == .eq
  | none => x.isNull && y.isNull

/-! ## Values -/

end Expr

namespace UnaryOp

/-- A function of the text of a value; null stays null. -/
def onText (f : String → Value) (v : Value) : Value := (v.text?.map f).getD .null

/-- The value of the operation; `none` is a fault of the engine. -/
def apply : UnaryOp → Value → Option Value
  | not, v => some (.ofTruth v.truth.not)
  | negate, v => some (Value.sub (.integer 0) v)
  | keep, v => some v
  | isNull, v => some (.ofBool v.isNull)
  | notNull, v => some (.ofBool !v.isNull)
  | isTruth negated wanted, v => some (.ofBool ((v.truth == some wanted) != negated))
  | lower, v => some (onText (fun s => .text (foldCase s)) v)
  | upper, v => some (onText (fun s => .text (String.ofList (s.toList.map Char.toUpper))) v)
  | length, v => some (onText (fun s => .integer (Like.untilNul s).length) v)
  | abs, v => v.abs?
  | typeOf, .null => some (.text "null")
  | typeOf, .integer _ => some (.text "integer")
  | typeOf, .real _ => some (.text "real")
  | typeOf, .text _ => some (.text "text")
  | cast .integer, v => some v.castInteger
  | cast .real, v => some v.castReal
  | cast .text, v => some v.toText
  | collate _, v => some v

end UnaryOp

namespace Expr

/-- The value of an operation on two values that are both needed. -/
def combine (x y : Expr) (op : BinaryOp) (a b : Value) : Option Value :=
  match op with
  | .and => some (.ofTruth (a.truth.and b.truth))
  | .or => some (.ofTruth (a.truth.or b.truth))
  | .compare op => some (.ofTruth (Value.test op (commonAffinity x y) (commonCollation x y) a b))
  | .is negated =>
    some (.ofBool (same (commonAffinity x y) (commonCollation x y) a b != negated))
  | .element => some (.ofTruth (Value.test .eq x.affinity (x.collation?.getD .binary) a b))
  | .add => some (a.add b)
  | .sub => some (a.sub b)
  | .mul => some (a.mul b)
  | .div => some (a.div b)
  | .rem => some (a.rem b)
  | .concat => some (a.concat b)
  | .like => if b.text?.any Like.isTooLong then none else some (.ofTruth (a.like none b))
  | .ifNull => some (if a.isNull then b else a)
  | .nullIf =>
    some (if Value.test .eq .none (commonCollation x y) a b == some true then .null else a)
  | .extract => a.extract? b
  | .typeAt => a.typeAt? b

/-- `LIKE` with an escape character, which must be one character. -/
def likeEscaped (x pattern escape : Value) : Option Value :=
  if pattern.text?.any Like.isTooLong then none
  else match escape.text? with
  | none => some .null
  | some s =>
    match s.toList with
    | [c] => some (.ofTruth (x.like (some c) pattern))
    | _ => none

/-- The operation is settled by its left side alone. -/
def settled? (op : BinaryOp) (a : Value) : Option Value :=
  match op with
  | .and => if a.truth = some false then some (.ofBool false) else none
  | .or => if a.truth = some true then some (.ofBool true) else none
  | .ifNull => if a.isNull then none else some a
  | _ => none

/-- The value of an expression; `none` is a fault of the engine. -/
def eval (read : Place → Value) (params : List Value) : Expr → Option Value
  | value v => some v
  | param index => params[index]?
  | column place => some (read place)
  | name .. | unknown => none
  | unary op x => do op.apply (← x.eval read params)
  | binary op x y => do
    let a ← x.eval read params
    match settled? op a with
    | some v => return v
    | none => combine x y op a (← y.eval read params)
  | ternary .choose x y z => do
    if (← x.eval read params).truth.isTrue then y.eval read params else z.eval read params
  | ternary .likeEscape x y z => do
    likeEscaped (← x.eval read params) (← y.eval read params) (← z.eval read params)

/-- The truth of an expression. -/
def holds (read : Place → Value) (params : List Value) (e : Expr) : Option Truth :=
  (e.eval read params).map Value.truth

end Expr

end Sql

end Dossier
