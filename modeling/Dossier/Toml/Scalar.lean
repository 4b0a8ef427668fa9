import Dossier.Json.Encoding
import Dossier.Text.Ascii

/-!
# Strings and words of TOML

Four kinds of strings: basic ones with escapes, literal ones without, each on one line between
single marks or on several between triple ones. Everything else that is not a container is a word: a
truth value, a number, a date or a time. Every reader takes the characters from where it starts and
gives what it has read and what follows.

`isMoment` accepts a date, a time, or both, then with or without an offset from universal time. The
seconds may be left out. All parts are within their ranges, and a day is one of its month.
-/

namespace Dossier.Toml

open Text

/-! ## Dates and times -/

/-- Two digits at the front, as a number. -/
def twoDigits? : List Char → Option (Nat × List Char)
  | a :: b :: rest => if a.isDigit && b.isDigit then some (decimalNumber [a, b], rest) else none
  | _ => none

/-- What follows a given character at the front. -/
def after? (c : Char) : List Char → Option (List Char)
  | d :: rest => if d = c then some rest else none
  | [] => none

/-- The year has a 29th of February. -/
def isLeapYear (year : Nat) : Bool := year % 4 = 0 && (year % 100 ≠ 0 || year % 400 = 0)

/-- The days of a month, none for a number that is no month. -/
def daysIn (year month : Nat) : Nat :=
  if month = 2 then if isLeapYear year then 29 else 28
  else if [4, 6, 9, 11].contains month then 30
  else if 1 ≤ month && month ≤ 12 then 31
  else 0

/-- What follows a date at the front. -/
def date? (cs : List Char) : Option (List Char) := do
  let (century, rest) ← twoDigits? cs
  let (year, rest) ← twoDigits? rest
  let (month, rest) ← twoDigits? (← after? '-' rest)
  let (day, rest) ← twoDigits? (← after? '-' rest)
  if 1 ≤ day && day ≤ daysIn (100 * century + year) month then some rest else none

/-- What follows an hour and a minute at the front. -/
def clock? (cs : List Char) : Option (List Char) := do
  let (hour, rest) ← twoDigits? cs
  let (minute, rest) ← twoDigits? (← after? ':' rest)
  if hour ≤ 23 && minute ≤ 59 then some rest else none

/-- What follows a fraction of a second at the front; there may be none. -/
def fraction? : List Char → Option (List Char)
  | '.' :: rest => if rest.head?.any Char.isDigit then some (rest.dropWhile Char.isDigit) else none
  | rest => some rest

/-- What follows a time of the day at the front. -/
def time? (cs : List Char) : Option (List Char) := do
  match ← clock? cs with
  | ':' :: rest =>
    let (second, rest) ← twoDigits? rest
    if second ≤ 60 then fraction? rest else none
  | rest => some rest

/-- An offset from universal time, or nothing. -/
def isOffset : List Char → Bool
  | [] => true
  | [z] => z == 'Z' || z == 'z'
  | sign :: rest => (sign == '+' || sign == '-') && clock? rest == some []

/-- A character between a date and a time. -/
def isDateEnd (c : Char) : Bool := c == 'T' || c == 't' || c == ' '

/-- The text is a date, a time or both. -/
def isMoment (cs : List Char) : Bool :=
  match date? cs with
  | some [] => true
  | some (c :: rest) => isDateEnd c && (time? rest).any isOffset
  | none => time? cs == some []

/-! ## Characters -/

/-- A blank within a line. -/
def isSpace (c : Char) : Bool := c == ' ' || c == '\t'

/-- A character that may stand in a comment or between the marks of a string. -/
def isPlain (c : Char) : Bool := c == '\t' || (0x20 ≤ c.toNat && c.toNat ≠ 0x7f)

/-! ## Strings -/

/-- A character in front of what has been read. -/
def prepend (c : Char) (r : Option (List Char × List Char)) : Option (List Char × List Char) :=
  r.map fun (cs, rest) => (c :: cs, rest)

/-- What stands before the closing mark of a string on one line. A backslash keeps the mark after it
from closing a basic string; `escaped` says that one stands right before. -/
def lineBody? (mark : Char) (escaped : Bool) : List Char → Option (List Char × List Char)
  | [] => none
  | c :: rest =>
    if c = mark && !escaped then some ([], rest)
    else if isPlain c then
      prepend c (lineBody? mark (mark == '"' && c == '\\' && !escaped) rest)
    else none

/-- What stands before the three closing marks of a string on several lines. Up to two more marks
before them belong to the string, and every line ends in one character. -/
def linesBody? (mark : Char) (escaped : Bool) : List Char → Option (List Char × List Char)
  | [] => none
  | c :: rest =>
    let run := (rest.takeWhile (· == mark)).take 4
    if c = mark && !escaped && 2 ≤ run.length then some (run.drop 2, rest.drop run.length)
    else if c = '\r' && rest.head? == some '\n' then linesBody? mark escaped rest
    else if c == '\n' || isPlain c then
      prepend c (linesBody? mark (mark == '"' && c == '\\' && !escaped) rest)
    else none

/-- The character that an escape of one letter stands for. -/
def escape? : Char → Option Char
  | 'b' => some '\x08'
  | 't' => some '\t'
  | 'n' => some '\n'
  | 'f' => some '\x0c'
  | 'r' => some '\r'
  | 'e' => some '\x1b'
  | '"' => some '"'
  | '\\' => some '\\'
  | _ => none

/-- The character of a hexadecimal code point. -/
def codePoint? (digits : List Char) : Option Char := do
  let n ← hexNumber? digits
  if n.isValidChar then some (Char.ofNat n) else none

/-- A backslash before these characters ends its line. -/
def endsLine (cs : List Char) : Bool := (cs.dropWhile isSpace).head? == some '\n'

/-- A string with its escapes replaced. A backslash at the end of a line leaves out the blanks up to
the next character; `skipping` says that this is going on. -/
def unescape? (skipping : Bool) : List Char → Option (List Char)
  | [] => some []
  | '\\' :: 'x' :: a :: b :: rest => do return (← codePoint? [a, b]) :: (← unescape? false rest)
  | '\\' :: 'u' :: a :: b :: c :: d :: rest => do
    return (← codePoint? [a, b, c, d]) :: (← unescape? false rest)
  | '\\' :: 'U' :: a :: b :: c :: d :: e :: f :: g :: h :: rest => do
    return (← codePoint? [a, b, c, d, e, f, g, h]) :: (← unescape? false rest)
  | '\\' :: c :: rest =>
    if endsLine (c :: rest) then unescape? true rest
    else do return (← escape? c) :: (← unescape? false rest)
  | c :: rest =>
    if skipping && (isSpace c || c == '\n') then unescape? true rest
    else if c == '\\' then none
    else (c :: ·) <$> unescape? false rest

/-- The characters without a line end at the front. -/
def dropLineEnd : List Char → List Char
  | '\n' :: rest => rest
  | '\r' :: '\n' :: rest => rest
  | rest => rest

/-- A string at the front, on one line or on several. -/
def string? : List Char → Option (String × List Char)
  | mark :: rest => do
    if mark ≠ '"' && mark ≠ '\'' then none
    let (body, after) ←
      if [mark, mark].isPrefixOf rest then linesBody? mark false (dropLineEnd (rest.drop 2))
      else lineBody? mark false rest
    let body ← if mark = '"' then unescape? false body else some body
    return (String.ofList body, after)
  | [] => none

/-! ## Numbers -/

/-- The digits of a number, which underscores may part. -/
def digits? (isDigit : Char → Bool) (cs : List Char) : Option (List Char) :=
  if (cs.splitOn '_').all (fun part => !part.isEmpty && part.all isDigit) then
    some (cs.filter (· != '_'))
  else none

/-- The sign at the front, if any: the number is negative. -/
def signed : List Char → Bool × List Char
  | '-' :: rest => (true, rest)
  | '+' :: rest => (false, rest)
  | rest => (false, rest)

/-- Digits with no zero in front of others. -/
def decimal? (cs : List Char) : Option (List Char) :=
  match digits? Char.isDigit cs with
  | some ('0' :: _ :: _) => none
  | ds => ds

/-- A number in another base. -/
def based (base : Nat) (cs : List Char) : Option Int := do
  let ds ← digits? (fun c => (hexValue? c).any (· < base)) cs
  return (ds.foldl (fun n c => base * n + (hexValue? c).getD 0) 0 : Nat)

/-- A whole number. -/
def integer? (cs : List Char) : Option Whole :=
  match cs with
  | '0' :: 'x' :: rest => (based 16 rest).bind Whole.ofInt?
  | '0' :: 'o' :: rest => (based 8 rest).bind Whole.ofInt?
  | '0' :: 'b' :: rest => (based 2 rest).bind Whole.ofInt?
  | _ => do
    let (negative, rest) := signed cs
    let n := decimalNumber (← decimal? rest)
    Whole.ofInt? (if negative then -(n : Int) else n)

/-- What follows the whole part of a number that is not whole: a fraction, an exponent or both,
without the underscores. -/
def tail? (cs : List Char) : Option (List Char) := do
  let fraction := cs.takeWhile fun c => c != 'e' && c != 'E'
  let fraction ← match fraction with
    | [] => some []
    | '.' :: ds => ('.' :: ·) <$> digits? Char.isDigit ds
    | _ => none
  match cs.dropWhile fun c => c != 'e' && c != 'E' with
  | [] => if fraction.isEmpty then none else some fraction
  | _ :: exponent =>
    let (negative, ds) := signed exponent
    return fraction ++ 'e' :: (if negative then ['-'] else []) ++ (← digits? Char.isDigit ds)

/-- A number that is not whole. One that is too large is infinite. -/
def real? (cs : List Char) : Option Number := do
  let (negative, rest) := signed cs
  let infinite := (1.0 : Float) / 0.0
  if rest = "inf".toList then return .real infinite
  if rest = "nan".toList then return .real (0.0 / 0.0)
  let whole ← decimal? (rest.takeWhile fun c => c.isDigit || c == '_')
  let tail ← tail? (rest.dropWhile fun c => c.isDigit || c == '_')
  return (Number.ofChars? ((if negative then ['-'] else []) ++ whole ++ tail)).getD (.real infinite)

/-! ## Words -/

/-- A character that ends a word. -/
def endsWord (c : Char) : Bool := isSpace c || "\r\n#,=[]\x7b\x7d\"'".toList.contains c

/-- The key under which a date or a time stands alone in an object. -/
def momentKey : String := "$moment"

/-- The value of a word. A date or a time is an object with one key of its own. -/
def word? (cs : List Char) : Option Json :=
  if cs = "true".toList then some (.bool true)
  else if cs = "false".toList then some (.bool false)
  else if isMoment cs then some (.object [(momentKey, .string (String.ofList cs))])
  else match integer? cs with
    | some n => some (.number (.whole n))
    | none => (real? cs).map .number

/-- A word at the front; the time may follow its date after a blank. -/
def takeWord (cs : List Char) : List Char × List Char :=
  let word := cs.takeWhile (!endsWord ·)
  match date? word, cs.dropWhile (!endsWord ·) with
  | some [], ' ' :: d :: rest =>
    if d.isDigit then
      (word ++ ' ' :: (d :: rest).takeWhile (!endsWord ·), (d :: rest).dropWhile (!endsWord ·))
    else (word, ' ' :: d :: rest)
  | _, rest => (word, rest)

end Dossier.Toml
