import Dossier.Decimal.Binary
import Dossier.Sql.Like
import Dossier.Sql.Limits
import Dossier.Sql.Token

/-!
# Lexemes of SQL

The tokens of a text without blanks and comments, each with what it stands for: names and strings
without their quotes, numbers as values, and placeholders by the place of their value. `lexemes?`
fails on what is no token, and on blobs, which no value of a document is.
-/

namespace Dossier.Sql

open Text

/-- A token with its meaning. -/
inductive Lexeme
  | word (text : String)
  | quoted (text : String) (isDouble : Bool)
  | string (text : String)
  | whole (n : Nat)
  | real (x : Float)
  | param (index : Nat)
  | symbol (text : String)
deriving BEq

/-- The places that placeholders have so far: the greatest number, and the number of each name. -/
structure Numbering where
  last : Nat
  names : List (List Char × Nat)

namespace Numbering

/-- No placeholders yet. -/
def start : Numbering := ⟨0, []⟩

/-- Numbers a placeholder: `?` takes the next number, a name the number that it had before. -/
def assign (s : Numbering) (text : List Char) : Option (Nat × Numbering) :=
  match text with
  | ['?'] => if s.last < limits.values then some (s.last + 1, { s with last := s.last + 1 }) else none
  | '?' :: ds =>
    let n := decimalNumber ds
    if 1 ≤ n && n ≤ limits.values then some (n, { s with last := max s.last n }) else none
  | name =>
    match s.names.find? (·.1 == name) with
    | some (_, n) => some (n, s)
    | none =>
      if s.last < limits.values then some (s.last + 1, ⟨s.last + 1, (name, s.last + 1) :: s.names⟩) else none

end Numbering

/-- What stands between delimiters, each doubled delimiter once. -/
def undouble (q : Char) : List Char → List Char
  | c :: d :: rest =>
    if c = q && d = q then q :: undouble q rest else c :: undouble q (d :: rest)
  | cs => cs

/-- The text without its first and its last character. -/
def between (cs : List Char) : List Char := (cs.drop 1).dropLast

/-- Every separator stands between two digits. -/
def separatorsInside (isDigit : Char → Bool) : (before : Bool) → List Char → Bool
  | _, [] => true
  | before, '_' :: rest => before && rest.head?.any isDigit && separatorsInside isDigit false rest
  | _, c :: rest => separatorsInside isDigit (isDigit c) rest

/-- An integer in hexadecimal, as 64 bits with a sign. -/
def hexadecimal? (ds : List Char) : Option Lexeme :=
  match hexNumber? ds with
  | some n => if n < 0x8000000000000000 then some (.whole n) else none
  | none => none

/-- A number. -/
def numberLexeme? (cs : List Char) : Option Lexeme :=
  let isHex := cs.take 2 == ['0', 'x'] || cs.take 2 == ['0', 'X']
  let isDigit := fun c => if isHex then (hexValue? c).isSome else c.isDigit
  if separatorsInside isDigit false cs then
    let cs := cs.filter (· != '_')
    if isHex then hexadecimal? (cs.drop 2)
    else if cs.all Char.isDigit then some (.whole (decimalNumber cs))
    else (Value.numeral? (String.ofList cs)).map fun n => .real n.toFloat
  else none

/-- The meaning of a token that is neither blank, comment nor placeholder. -/
def Token.lexeme? (t : Token) : Option Lexeme :=
  match t.kind with
  | .word => some (.word (String.ofList t.text))
  | .symbol => some (.symbol (String.ofList t.text))
  | .string => some (.string (String.ofList (undouble '\'' (between t.text))))
  | .number => numberLexeme? t.text
  | .quotedName =>
    match t.text with
    | '"' :: _ => some (.quoted (String.ofList (undouble '"' (between t.text))) true)
    | '[' :: _ => some (.quoted (String.ofList (between t.text)) false)
    | _ => some (.quoted (String.ofList (undouble '\x60' (between t.text))) false)
  | _ => none

/-- The lexemes of tokens, with the placeholders numbered on from `s`. -/
def lexemesFrom (s : Numbering) : List Token → Option (List Lexeme × Numbering)
  | [] => some ([], s)
  | t :: rest =>
    match t.kind with
    | .blank | .comment => lexemesFrom s rest
    | .variable =>
      match s.assign t.text with
      | none => none
      | some (n, s) => (lexemesFrom s rest).map fun (ls, s) => (.param (n - 1) :: ls, s)
    | _ =>
      match t.lexeme? with
      | none => none
      | some l => (lexemesFrom s rest).map fun (ls, s) => (l :: ls, s)

/-- The lexemes of a text up to its first U+0000, and the number of values that it takes. -/
def lexemes? (text : String) : Option (List Lexeme × Nat) :=
  (lexemesFrom .start (tokens (Like.untilNul text))).map fun (ls, s) => (ls, s.last)

end Dossier.Sql
