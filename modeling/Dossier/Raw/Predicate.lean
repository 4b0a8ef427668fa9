import Dossier.Field.Resolver
import Dossier.Sql.Grammar
import Dossier.Sql.Value
import Dossier.Text.Ascii
import Dossier.Text.Letter

/-!
# Raw predicates

A raw predicate is SQL that the caller wrote, with values for its placeholders. `pieces` splits a fragment into quoted runs,
placeholders, numbers, words and single characters; put together they are the fragment again (`flatMap_chars_pieces`).

`resolve` turns the bare field names of a fragment into extractions from the body: every word but keywords, function names and the
columns of the table. A fragment that extracts by itself is left alone. `RawPredicate.whereText` puts one `WHERE` in front of the
resolved fragment.

The engine reads a raw predicate together with the order and page that are written after it. `RawPredicate.selection?` is that
reading: the condition, and whether what follows it still counts, for a comment or a semicolon in the predicate hides it. It is
`none` where the engine refuses the statement: a malformed text, a name that stands for nothing, or a wrong number of values.
-/

namespace Dossier.Raw

open Text

/-! ## Pieces of a fragment -/

/-- A stretch of an SQL fragment. -/
inductive Piece
  | quoted (text : List Char)
  | placeholder (text : List Char)
  | number (text : List Char)
  | word (text : List Char)
  | other (c : Char)
deriving DecidableEq, Repr

/-- The characters of a piece. -/
def Piece.chars : Piece → List Char
  | quoted text | placeholder text | number text | word text => text
  | other c => [c]

/-- The delimiter that ends a quoted run. -/
def closing? (c : Char) : Option Char :=
  if c = '\'' || c = '"' || c = '\x60' then some c
  else if c = '[' then some ']'
  else none

/-- What follows an opening delimiter up to its closing one, and the rest. Inside quotes a doubled
delimiter does not close; a run that is never closed reaches to the end. -/
def quotedRun (close : Char) : List Char → List Char × List Char
  | [] => ([], [])
  | [c] => ([c], [])
  | c :: d :: rest =>
    if c = close then
      if d = close && close ≠ ']' then
        let (run, rest) := quotedRun close rest
        (c :: d :: run, rest)
      else ([c], d :: rest)
    else
      let (run, rest) := quotedRun close (d :: rest)
      (c :: run, rest)

theorem quotedRun_append (close : Char) (cs : List Char) :
    (quotedRun close cs).1 ++ (quotedRun close cs).2 = cs := by
  fun_induction quotedRun close cs <;> simp_all

theorem length_quotedRun_le (close : Char) (cs : List Char) :
    (quotedRun close cs).2.length ≤ cs.length := by
  have h := congrArg List.length (quotedRun_append close cs)
  simp only [List.length_append] at h
  omega

def isPlaceholderStart (c : Char) : Bool := c == '?' || c == ':' || c == '@' || c == '$'
def isNameChar (c : Char) : Bool := isAlphanumeric c || c == '_'
def isNumberChar (c : Char) : Bool := isAlphanumeric c || c == '.'
def isWordStart (c : Char) : Bool := isAlphabetic c || c == '_'
def isWordChar (c : Char) : Bool := isAlphanumeric c || c == '_' || c == '.'

theorem length_dropWhile_le {p : Char → Bool} (cs : List Char) :
    (cs.dropWhile p).length ≤ cs.length :=
  (List.dropWhile_sublist p).length_le

/-- The pieces of a fragment from left to right. -/
def pieces : List Char → List Piece
  | [] => []
  | c :: cs =>
    match closing? c with
    | some close =>
      have := length_quotedRun_le close cs
      .quoted (c :: (quotedRun close cs).1) :: pieces (quotedRun close cs).2
    | none =>
      if isPlaceholderStart c then
        have := length_dropWhile_le (p := isNameChar) cs
        .placeholder (c :: cs.takeWhile isNameChar) :: pieces (cs.dropWhile isNameChar)
      else if c.isDigit then
        have := length_dropWhile_le (p := isNumberChar) cs
        .number (c :: cs.takeWhile isNumberChar) :: pieces (cs.dropWhile isNumberChar)
      else if isWordStart c then
        have := length_dropWhile_le (p := isWordChar) cs
        .word (c :: cs.takeWhile isWordChar) :: pieces (cs.dropWhile isWordChar)
      else .other c :: pieces cs
termination_by cs => cs.length
decreasing_by all_goals (simp only [List.length_cons]; omega)

theorem flatMap_chars_pieces (cs : List Char) : (pieces cs).flatMap Piece.chars = cs := by
  fun_induction pieces cs <;> simp_all [Piece.chars, quotedRun_append, List.takeWhile_append_dropWhile]

/-! ## Field names -/

/-- The words that never name a field. -/
def keywords : List String :=
  ["and", "or", "not", "null", "is", "in", "like", "glob", "between", "true", "false", "where",
    "escape", "case", "when", "then", "else", "end", "collate", "nocase", "binary", "rtrim", "asc",
    "desc", "exists", "cast", "as", "real", "integer", "text", "numeric", "blob", "select", "from",
    "regexp", "match", "distinct", "all", "isnull", "notnull", "current_timestamp",
    "current_date", "current_time", "limit", "offset", "order", "by", "group", "having", "union",
    "raise"]

/-- The first parts of a word that name a column or a row and no field. -/
def columnHeads : List String := systemColumns ++ [orderColumn, "new", "old"]

/-- The word up to its first dot. -/
def wordHead (w : List Char) : List Char := w.takeWhile (· != '.')

/-- A word of a fragment in its resolved form; `isCall` says that `(` follows it. -/
def resolveWord (source : String) (isCall : Bool) (w : List Char) : List Char :=
  let word := String.ofList w
  let folded := foldCase word
  if isCall || keywords.contains folded then w
  else if word = "_id" then "id".toList
  else if columnHeads.contains (String.ofList (wordHead folded.toList)) then w
  else match FieldPath.parse word with
    | .ok path => (extractText source path).toList
    | .error _ => w

/-- The first character that is no blank is an opening parenthesis. -/
def opensCall (cs : List Char) : Bool := (cs.find? fun c => !isBlank c) == some '('

/-- The pieces with their words resolved. -/
def resolvePieces (source : String) : List Piece → List Char
  | [] => []
  | .word w :: rest =>
    resolveWord source (opensCall (rest.flatMap Piece.chars)) w ++ resolvePieces source rest
  | p :: rest => p.chars ++ resolvePieces source rest

/-- The first list occurs in the second. -/
def occursIn (part : List Char) : List Char → Bool
  | [] => part.isEmpty
  | c :: cs => part.isPrefixOf (c :: cs) || occursIn part cs

/-- The fragment extracts from a document by itself, in any case. -/
def extracts (fragment : String) : Bool :=
  occursIn "json_extract".toList (foldCase fragment).toList

/-- The fragment with its field names read from the document in `source`. -/
def resolve (source fragment : String) : String :=
  if extracts fragment then fragment
  else String.ofList (resolvePieces source (pieces fragment.toList))

/-- The fragment without a leading `WHERE`. -/
def stripWhere (cs : List Char) : List Char :=
  let rest := cs.drop 5
  if foldCase (String.ofList (cs.take 5)) = "where" then
    match rest with
    | c :: _ => if isBlank c || c = '(' then trimStart rest else cs
    | [] => cs
  else cs

end Dossier.Raw

namespace Dossier

/-- SQL of the caller with the values of its placeholders. -/
structure RawPredicate where
  sql : String
  params : List Value

namespace RawPredicate

/-- The `WHERE` clause, or nothing for a blank text. -/
def whereText (p : RawPredicate) : String :=
  let trimmed := (Text.trim p.sql).toList
  if trimmed.isEmpty then ""
  else " WHERE " ++ Raw.resolve bodyColumn (String.ofList (Raw.stripWhere trimmed))

end RawPredicate

/-! ## What the engine reads -/

open Sql

/-- What the engine takes from a raw predicate: the condition, none for all rows, and whether the
order and page after it count. -/
structure RawSelection where
  condition : Option Expr
  listed : Bool

namespace RawSelection

/-- What is left after the condition: the order and page, or nothing that counts. -/
def isListed? (tail after : List Lexeme) : Option Bool :=
  if after == tail then some true
  else match after with
    | [] | [.symbol ";"] => some false
    | _ => none

/-- Reads the lexemes of a `WHERE` clause and of what follows it. -/
def ofLexemes? (scope : Scope) (tail ls : List Lexeme) : Option RawSelection := do
  let (e, after) ← Grammar.expression (← Grammar.takeWord "where" ls)
  return ⟨some (← e.resolve scope), ← isListed? tail after⟩

end RawSelection

namespace RawPredicate

/-- The reading of the predicate with the text of an order and a page after it. -/
def selection? (p : RawPredicate) (scope : Scope) (tail : String) : Option RawSelection := do
  let (tailLexemes, _) ← lexemes? tail
  let (ls, count) ← lexemes? (p.whereText ++ tail)
  if count ≠ p.params.length then none
  else if p.whereText.isEmpty then some ⟨none, true⟩
  else RawSelection.ofLexemes? scope tailLexemes ls

end RawPredicate

end Dossier
