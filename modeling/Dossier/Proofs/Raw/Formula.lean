import Dossier.Database.Basic
import Dossier.Raw.Predicate
import Dossier.Sql.Grammar

/-!
# What a fragment says of a body

A caller writes a fragment over the fields of a body. `Raw.formula?` reads it as it stands: the engine's own tokens, with
every bare field name as one operand, are an expression of the engine's own grammar in which the fields stand as
parameters. `Formula.truth?` is its truth for a body, each field being what the body holds at its path. Nothing here
rewrites a text.
-/

namespace Dossier

open Sql Text

namespace Sql

/-- Every leaf of the expression is a value or a parameter. -/
def Expr.closed : Expr → Bool
  | .value _ | .param _ => true
  | .name .. | .column _ | .unknown => false
  | .unary _ x => x.closed
  | .binary _ x y => x.closed && y.closed
  | .ternary _ x y z => x.closed && y.closed && z.closed

end Sql

namespace Raw

/-- What stands in a fragment: a lexeme, or a field of the body. -/
inductive Term
  | lexeme (l : Lexeme)
  | field (path : FieldPath)

namespace Term

/-- The fields among terms, in order. -/
def fields (terms : List Term) : List FieldPath :=
  terms.filterMap fun
    | .lexeme _ => none
    | .field path => some path

/-- The lexeme of a term: the parameter of the field's place, if it is one. -/
def lexemeIn (fields : List FieldPath) : Term → Lexeme
  | .lexeme l => l
  | .field path => .param (fields.idxOf path)

end Term

/-- The words that follow a word after points without blanks, with the points, and the tokens after them. -/
def dotted : List Token → List Char × List Token
  | ⟨.symbol, ['.']⟩ :: ⟨.word, w⟩ :: rest => ('.' :: w ++ (dotted rest).1, (dotted rest).2)
  | ts => ([], ts)

theorem length_dotted_le (ts : List Token) : (dotted ts).2.length ≤ ts.length := by
  fun_induction dotted ts with
  | case1 w rest ih => simp only [List.length_cons]; omega
  | case2 => exact Nat.le_refl _

/-- The first token that is no blank is an opening parenthesis. -/
def callFollows (ts : List Token) : Bool :=
  (ts.find? fun t => t.kind != .blank).any fun t => t.text == ['(']

/-- A word of letters, digits, `_` and points that begins with a letter or `_`: a keyword or the name of a function if
`(` follows, else a field. The columns of the table and the rows of a trigger are no fields. -/
def term? (isCall : Bool) (w : List Char) : Option Term :=
  let word := String.ofList w
  let folded := foldCase word
  if !(w.head?.any isWordStart && w.all isWordChar) then none
  else if isCall then (if w.contains '.' then none else some (.lexeme (.word word)))
  else if keywords.contains folded then some (.lexeme (.word word))
  else if word = "_id" || columnHeads.contains (String.ofList (wordHead folded.toList)) then none
  else match FieldPath.parse word with
    | .ok path => some (.field path)
    | .error _ => none

/-- Tokens that no expression has next to each other without a blank: a point after a word that it does not connect with
another one, a point or a number after a number, and what would begin a comment. -/
def collide (t u : Token) : Bool :=
  ((t.kind = .word || t.kind = .number) && u = ⟨.symbol, ['.']⟩) || (t.kind = .number && u.kind = .number)
    || (t = ⟨.symbol, ['/']⟩ && u = ⟨.symbol, ['*']⟩)

/-- The terms of tokens. Comments, placeholders and blobs are no part of a formula. -/
def terms? : List Token → Option (List Term)
  | [] => some []
  | t :: rest =>
    match t.kind with
    | .blank => if t.text = ['\ufeff'] then none else terms? rest
    | .word =>
      have := length_dotted_le rest
      if (dotted rest).2.head?.any (collide t) then none
      else do
        let term ← term? (callFollows (dotted rest).2) (t.text ++ (dotted rest).1)
        return term :: (← terms? (dotted rest).2)
    | _ =>
      if rest.head?.any (collide t) then none
      else do
        let l ← t.lexeme?
        return .lexeme l :: (← terms? rest)
termination_by ts => ts.length

/-- Numbers are written without separators, and none stands right after a word. -/
def numbersApart : List Token → Bool
  | [] => true
  | t :: rest =>
    !(t.kind = .number && t.text.contains '_') && !(t.kind = .word && rest.head?.any (·.kind = .number))
      && numbersApart rest

end Raw

/-- An expression in which each parameter is the value of a field. -/
structure Formula where
  expr : Sql.Expr
  fields : List FieldPath

namespace Formula

/-- The truth of the formula for a body; none is a fault of the engine. -/
def truth? (f : Formula) (b : Body) : Option Truth :=
  f.expr.holds (fun _ => .null) (f.fields.map b.extract)

end Formula

/-- The formula that a fragment is. -/
def Raw.formula? (fragment : String) : Option Formula := do
  if extracts fragment || fragment.toList.contains '\x00' then none
  let terms ← terms? (tokens fragment.toList)
  let fields := Term.fields terms
  let (e, rest) ← Grammar.expression (terms.map (Term.lexemeIn fields))
  let e ← e.resolve fun _ _ => none
  if rest.isEmpty && e.closed then some ⟨e, fields⟩ else none

end Dossier
