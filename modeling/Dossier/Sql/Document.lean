import Dossier.Field.Path
import Dossier.Json.Encoding
import Dossier.Sql.Value

/-!
# The JSON functions of the engine

They work on the `Tree` of a stored text: `lookup?` finds the value at a path, `value` and
`typeName` answer `json_extract` and `json_type`, `set` and `remove` change a place and keep the
text of all others. A key names no item of an array. `set` makes the objects that are missing on
its way; where a value stands in the way it changes nothing.
-/

namespace Dossier

open Decimal Text

namespace Tree

/-- The key of a member as a text; half a surrogate pair shows as U+FFFD. -/
def stringText (raw : List Char) : String :=
  String.ofList ((joinPairs (some '\ufffd') (stringCodes raw)).getD [])

/-- The first member under a key. -/
def member? (key : String) : List (List Char × Tree) → Option Tree
  | [] => none
  | (raw, t) :: rest => if stringText raw = key then some t else member? key rest

/-- The value under a key of an object. -/
def child? (key : String) : Tree → Option Tree
  | object members => member? key members
  | _ => none

/-- The value at the end of a list of keys. -/
def lookup? : List String → Tree → Option Tree
  | [], t => some t
  | key :: rest, t => (t.child? key).bind (lookup? rest)

/-- The text has neither point nor exponent. -/
def isWholeText (text : List Char) : Bool := text.all fun c => c.isDigit || c == '-'

/-- A number as a value: an integer if 64 signed bits hold it, else the nearest double. -/
def numberValue (text : List Char) : Value :=
  match Value.numeral? (String.ofList text) with
  | none => .null
  | some n =>
    match n.signed? with
    | some i => .integer i
    | none => .real n.toFloat

/-- The value of a tree: booleans are 1 and 0, containers their text without blanks. -/
def value : Tree → Value
  | null => .null
  | bool b => .ofBool b
  | number text => numberValue text
  | string raw => .text (stringText raw)
  | t => .text t.text

/-- The type of a tree; a number with a point or an exponent is real. -/
def typeName : Tree → String
  | null => "null"
  | bool b => if b then "true" else "false"
  | number text => if isWholeText text then "integer" else "real"
  | string _ => "text"
  | array _ => "array"
  | object _ => "object"

/-- A value as a tree; an infinite double is written as a number past every double. -/
def ofValue : Value → Tree
  | .null => null
  | .integer n => number (Number.intText n)
  | .real x =>
    match Binary.ofFloat? x with
    | some b => number (Value.binaryText b)
    | none => number (if 0.0 < x then "9e999".toList else "-9e999".toList)
  | .text s => string (escapeString s)

/-- The objects along a list of keys with a value at the end. -/
def nest : List String → Tree → Tree
  | [], t => t
  | key :: rest, t => object [(escapeString key, nest rest t)]

mutual
/-- Writes a value at the end of a list of keys. -/
def set (t : Tree) : List String → Tree → Tree
  | [], _ => t
  | key :: rest, .object members => .object (setMember t key rest members)
  | _ :: _, other => other

/-- Writes below the first member under a key, or in a new last member. -/
def setMember (t : Tree) (key : String) (rest : List String) :
    List (List Char × Tree) → List (List Char × Tree)
  | [] => [(escapeString key, nest rest t)]
  | (raw, child) :: others =>
    if stringText raw = key then (raw, set t rest child) :: others
    else (raw, child) :: setMember t key rest others
end

/-- Takes out the first member under a key. -/
def eraseMember (key : String) : List (List Char × Tree) → List (List Char × Tree)
  | [] => []
  | (raw, child) :: others =>
    if stringText raw = key then others else (raw, child) :: eraseMember key others

/-- Changes the first member under a key. -/
def mapMember (f : Tree → Tree) (key : String) :
    List (List Char × Tree) → List (List Char × Tree)
  | [] => []
  | (raw, child) :: others =>
    if stringText raw = key then (raw, f child) :: others
    else (raw, child) :: mapMember f key others

/-- Takes out what stands at the end of a list of keys. -/
def remove : List String → Tree → Tree
  | [key], object members => object (eraseMember key members)
  | key :: rest, object members => object (mapMember (remove rest) key members)
  | _, t => t

end Tree

end Dossier
