import Dossier.Decimal.Binary
import Dossier.Decimal.Digits
import Dossier.Json.Basic
import Dossier.Json.Tree
import Dossier.Text.Ascii

/-!
# Documents as text

`Json.tree` writes a value as a `Tree` and `Json.text` as compact text: no blanks, the keys of an
object in order, integers in decimal, a double in the fewest digits that read back.
`Tree.json?` reads a tree as a value; it fails on a number past the greatest double and on half of
a surrogate pair. `Tree.decode?` reads the tree of a stored text, which may nest at most
`Tree.decodeDepth` containers.
-/

namespace Dossier

open Decimal Text

/-! ## Numbers -/

namespace Number

/-- The least and the greatest place of the point that is written without an exponent. -/
def positionalPoints : Int × Int := (-4, 16)

/-- A finite double in the fewest digits that read back. -/
def binaryText (b : Binary) : List Char :=
  let d := shortest b
  let body :=
    if positionalPoints.1 ≤ d.point && d.point ≤ positionalPoints.2 then d.positional
    else d.scientific true 1
  if b.negative then '-' :: body else body

/-- The text of a double; what is no number has none of its own. -/
def realText (x : Float) : List Char :=
  match Binary.ofFloat? x with
  | some b => binaryText b
  | none => "null".toList

/-- The decimal text of an integer. -/
def intText (n : Int) : List Char :=
  if n < 0 then '-' :: natDigits n.natAbs else natDigits n.natAbs

/-- The text of a number. -/
def chars : Number → List Char
  | .whole n => intText n.val
  | .real x => realText x

/-- The number without fraction and exponent that the digits write: whole as long as 64 bits hold
it, else a double; minus zero is a double. -/
def ofDigits? (negative : Bool) (ds : List Char) : Option Number :=
  let (n, _, left) := takeDigits 0 0 ds
  if left.isEmpty then
    if negative then
      if 0 < n.toNat && n.toNat ≤ 0x8000000000000000 then (Whole.ofInt? (-n.toNat)).map .whole
      else some (.real (-n.toFloat))
    else (Whole.ofInt? n.toNat).map .whole
  else (scaled? n left.length).map fun x => .real (withSign negative x)

/-- The exponent after the letter `e`. -/
def exponentOf : List Char → Int
  | _ :: '-' :: ds => -(decimalNumber ds)
  | _ :: '+' :: ds => decimalNumber ds
  | _ :: ds => decimalNumber ds
  | [] => 0

/-- The number a text of the JSON grammar writes; digits past the 64 bits are dropped. -/
def ofChars? (cs : List Char) : Option Number :=
  let negative := cs.head? == some '-'
  let body := if negative then cs.drop 1 else cs
  let ds := body.takeWhile Char.isDigit
  match body.dropWhile Char.isDigit with
  | [] => ofDigits? negative ds
  | '.' :: rest =>
    let (kept, _, left) := takeDigits 0 0 ds
    let (n, used, _) := takeDigits kept 0 (rest.takeWhile Char.isDigit)
    let e := left.length - used + exponentOf (rest.dropWhile Char.isDigit)
    (scaled? n e).map fun x => .real (withSign negative x)
  | rest =>
    let (n, _, left) := takeDigits 0 0 ds
    (scaled? n (left.length + exponentOf rest)).map fun x => .real (withSign negative x)

end Number

/-! ## Strings -/

/-- The letter that escapes a control character, if it has one of its own. -/
def shortEscape? (c : Char) : Option Char :=
  match c.toNat with
  | 8 => some 'b'
  | 9 => some 't'
  | 10 => some 'n'
  | 12 => some 'f'
  | 13 => some 'r'
  | 0x22 => some '"'
  | 0x5c => some '\\'
  | _ => none

/-- A character between quotes. -/
def escapeChar (c : Char) : List Char :=
  match shortEscape? c with
  | some e => ['\\', e]
  | none => if c.toNat < 0x20 then '\\' :: 'u' :: hexDigits 4 c.toNat else [c]

/-- A string between its quotes. -/
def escapeString (s : String) : List Char := s.toList.flatMap escapeChar

/-- The character that an escape letter stands for. -/
def unescapeLetter (c : Char) : Nat :=
  if c = 'b' then 8 else if c = 't' then 9 else if c = 'n' then 10
  else if c = 'f' then 12 else if c = 'r' then 13 else c.toNat

/-- The code points of a string, each half of a surrogate pair on its own. -/
def stringCodes : List Char → List Nat
  | [] => []
  | '\\' :: 'u' :: a :: b :: c :: d :: rest =>
    ((hexNumber? [a, b, c, d]).getD 0) :: stringCodes rest
  | '\\' :: c :: rest => unescapeLetter c :: stringCodes rest
  | c :: rest => c.toNat :: stringCodes rest

def isHighSurrogate (n : Nat) : Bool := 0xd800 ≤ n && n < 0xdc00
def isLowSurrogate (n : Nat) : Bool := 0xdc00 ≤ n && n < 0xe000

/-- Joins surrogate pairs; `lone` says what half a pair stands for. -/
def joinPairs (lone : Option Char) : List Nat → Option (List Char)
  | [] => some []
  | hi :: lo :: rest =>
    if isHighSurrogate hi && isLowSurrogate lo then
      (joinPairs lone rest).map (Char.ofNat (0x10000 + (hi - 0xd800) * 0x400 + (lo - 0xdc00)) :: ·)
    else if isHighSurrogate hi || isLowSurrogate hi then
      lone.bind fun c => (joinPairs lone (lo :: rest)).map (c :: ·)
    else (joinPairs lone (lo :: rest)).map (Char.ofNat hi :: ·)
  | [n] => if isHighSurrogate n || isLowSurrogate n then lone.map ([·]) else some [Char.ofNat n]

/-- The string between two quotes; half of a surrogate pair is none. -/
def unescape? (raw : List Char) : Option String :=
  (joinPairs none (stringCodes raw)).map String.ofList

/-! ## Values -/

namespace Json

mutual
/-- The value as text without blanks. -/
def tree : Json → Tree
  | .null => .null
  | .bool b => .bool b
  | .number n => .number n.chars
  | .string s => .string (escapeString s)
  | .array items => .array (itemTrees items)
  | .object fields => .object (fieldTrees fields)

/-- The items one by one. -/
def itemTrees : List Json → List Tree
  | [] => []
  | j :: rest => tree j :: itemTrees rest

/-- The entries one by one. -/
def fieldTrees : List (String × Json) → List (List Char × Tree)
  | [] => []
  | (key, j) :: rest => (escapeString key, tree j) :: fieldTrees rest
end

/-- The compact text of a value. -/
def text (j : Json) : String := j.tree.text

end Json

namespace Tree

mutual
/-- The value of a tree; the last of a repeated key counts, at the place of the first. -/
def json? : Tree → Option Json
  | .null => some .null
  | .bool b => some (.bool b)
  | .number text => (Number.ofChars? text).map .number
  | .string raw => (unescape? raw).map .string
  | .array items => (jsonItems? items).map .array
  | .object members => (jsonFields? [] members).map .object

/-- The values of the items. -/
def jsonItems? : List Tree → Option (List Json)
  | [] => some []
  | t :: rest => (json? t).bind fun j => (jsonItems? rest).map (j :: ·)

/-- The entries after those read already. -/
def jsonFields? (read : Fields) : List (List Char × Tree) → Option Fields
  | [] => some read
  | (key, t) :: rest =>
    (unescape? key).bind fun k => (json? t).bind fun j => jsonFields? (read.put k j) rest
end

/-- The most containers that a stored document may nest and still be read back. -/
def decodeDepth : Nat := 127

/-- The value of a tree that nests at most `decodeDepth` containers. -/
def decode? (t : Tree) : Option Json := if t.depth ≤ decodeDepth then t.json? else none

end Tree

namespace Json

/-- The value of a text of the JSON grammar. -/
def ofText? (text : String) : Option Json := (Tree.read? text).bind Tree.json?

end Json

end Dossier
