import Dossier.Sql.Value
import Dossier.Text.Letter

/-!
# Tokens of SQL

`tokens` splits SQL text the way the engine does, blanks and comments included: the texts of the
tokens put together are the text again (`flatMap_text_tokens`). `extent` tells the kind of the
token at the front and how far it reaches.
-/

namespace Dossier.Sql

open Text

/-- The kinds of token. -/
inductive TokenKind
  | blank
  | comment
  | string
  | blob
  | number
  | quotedName
  | variable
  | word
  | symbol
  | illegal
deriving DecidableEq, Repr

/-- A token as it is written. -/
structure Token where
  kind : TokenKind
  text : List Char
deriving DecidableEq, Repr

/-- The characters of a name: letters, digits, `_`, `$` and everything past ASCII. -/
def isWordChar (c : Char) : Bool := c.isAlphanum || c == '_' || c == '$' || 128 ≤ c.toNat

/-- Digits and the separator that may stand between them. -/
def isDigitOrSeparator (c : Char) : Bool := c.isDigit || c == '_'

/-- The number of characters at the front that pass a test. -/
def runLength (p : Char → Bool) (cs : List Char) : Nat := (cs.takeWhile p).length

/-- The symbols, each before its own beginnings. -/
def symbols : List (List Char) :=
  ["->>", "->", "==", "<=", "<>", "<<", ">=", ">>", "!=", "||", "-", "(", ")", ";", "+", "*", "/",
    "%", "=", "<", ">", "|", ",", "&", "~", "."].map String.toList

/-- The length up to the end of a comment, `*/` included. -/
def commentLength : List Char → Nat
  | [] => 0
  | '*' :: '/' :: _ => 2
  | _ :: rest => 1 + commentLength rest

/-- The length up to a closing delimiter and with it; a doubled one closes nothing. -/
def quoteLength? (close : Char) : List Char → Option Nat
  | [] => none
  | [c] => if c = close then some 1 else none
  | c :: d :: rest =>
    if c = close then
      if d = close then (quoteLength? close rest).map (· + 2) else some 1
    else (quoteLength? close (d :: rest)).map (· + 1)

/-- The length up to a closing bracket and with it. -/
def bracketLength? (cs : List Char) : Option Nat :=
  let n := runLength (· != ']') cs
  if n < cs.length then some (n + 1) else none

/-- An exponent begins here: a letter, perhaps a sign, a digit. -/
def exponentLength (cs : List Char) : Nat :=
  match cs with
  | e :: rest =>
    if e = 'e' || e = 'E' then
      match rest with
      | '+' :: d :: more | '-' :: d :: more =>
        if d.isDigit then 3 + runLength isDigitOrSeparator more else 0
      | d :: more => if d.isDigit then 2 + runLength isDigitOrSeparator more else 0
      | [] => 0
    else 0
  | [] => 0

/-- The length of a fraction with its point. -/
def fractionLength : List Char → Nat
  | '.' :: rest => 1 + runLength isDigitOrSeparator rest
  | _ => 0

/-- The length of a number. -/
def numberLength (cs : List Char) : Nat :=
  match cs with
  | '0' :: x :: h :: rest =>
    if (x = 'x' || x = 'X') && (hexValue? h).isSome then
      3 + runLength (fun c => (hexValue? c).isSome || c == '_') rest
    else decimal cs
  | _ => decimal cs
where
  decimal (cs : List Char) : Nat :=
    let digits := runLength isDigitOrSeparator cs
    let n := digits + fractionLength (cs.drop digits)
    n + exponentLength (cs.drop n)

/-- The length of what follows the sign of a named variable, and whether it is a name. -/
def variableLength (named : Bool) : List Char → Nat × Bool
  | ':' :: ':' :: rest => let (n, ok) := variableLength named rest; (n + 2, ok)
  | c :: rest =>
    if isWordChar c then let (n, ok) := variableLength true rest; (n + 1, ok)
    else if c = '(' && named then
      let n := runLength (fun c => !Value.isPadding c && c != ')') rest
      if (rest.drop n).head? = some ')' then (n + 2, true) else (n + 1, false)
    else (0, named)
  | [] => (0, named)

/-- A quoted token: its kind, and its length when it is closed. -/
def quotedExtent (kind : TokenKind) (length? : Option Nat) (cs : List Char) : TokenKind × Nat :=
  match length? with
  | some n => (kind, n)
  | none => (.illegal, cs.length)

/-- A number that a character of a name follows is no token. -/
def numberExtent (c : Char) (cs : List Char) : TokenKind × Nat :=
  let n := numberLength (c :: cs) - 1
  match runLength isWordChar (cs.drop n) with
  | 0 => (.number, n)
  | more => (.illegal, n + more)

/-- The bytes of a blob in hexadecimal, an even number of digits between quotes. -/
def blobExtent (cs : List Char) : TokenKind × Nat :=
  let digits := runLength (fun c => (hexValue? c).isSome) (cs.drop 1)
  if digits % 2 = 0 && (cs.drop (digits + 1)).head? = some '\'' then (.blob, digits + 2)
  else (.illegal, min cs.length (2 + runLength (· != '\'') (cs.drop 1)))

/-- The kind of the token that begins with `c`, and its length after `c`. -/
def extent (c : Char) (cs : List Char) : TokenKind × Nat :=
  if isSqlBlank c then (.blank, runLength Value.isPadding cs)
  else if c = '\ufeff' then (.blank, 0)
  else if c = '-' && cs.head? = some '-' then (.comment, runLength (· != '\n') cs)
  else if c = '/' && cs.head? = some '*' && 1 < cs.length then
    (.comment, 1 + commentLength (cs.drop 1))
  else if c = '\'' then quotedExtent .string (quoteLength? c cs) cs
  else if c = '"' || c = '\x60' then quotedExtent .quotedName (quoteLength? c cs) cs
  else if c = '[' then quotedExtent .quotedName (bracketLength? cs) cs
  else if c = '?' then (.variable, runLength Char.isDigit cs)
  else if c = '$' || c = '@' || c = ':' || c = '#' then
    let (n, ok) := variableLength false cs
    (if ok then .variable else .illegal, n)
  else if c.isDigit || (c = '.' && cs.head?.any Char.isDigit) then numberExtent c cs
  else if (c = 'x' || c = 'X') && cs.head? = some '\'' then blobExtent cs
  else if isWordChar c then (.word, runLength isWordChar cs)
  else match symbols.find? (·.isPrefixOf (c :: cs)) with
    | some s => (.symbol, s.length - 1)
    | none => (.illegal, 0)

/-- The tokens of a text from left to right. -/
def tokens : List Char → List Token
  | [] => []
  | c :: cs =>
    ⟨(extent c cs).1, c :: cs.take (extent c cs).2⟩ :: tokens (cs.drop (extent c cs).2)
termination_by cs => cs.length
decreasing_by simp only [List.length_drop, List.length_cons]; omega

theorem flatMap_text_tokens (cs : List Char) : (tokens cs).flatMap Token.text = cs := by
  fun_induction tokens cs with
  | case1 => rfl
  | case2 c cs ih => simp [ih]

end Dossier.Sql
