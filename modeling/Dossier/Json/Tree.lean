import Dossier.Sql.Limits

/-!
# The text of documents

`Tree` is JSON text with its blanks removed: every string and number is kept as it was written, and
an object may repeat a key. `Tree.read?` accepts the texts of the JSON grammar that nest at most
`Tree.depthLimit` containers; `Tree.text` writes a tree without blanks.

Reading goes in two passes over lists: `tokens?` splits the characters, `Reading.step` takes one
token at a time with the open containers on a stack.
-/

namespace Dossier

/-- JSON text without its blanks; strings hold what stands between their quotes. -/
inductive Tree
  | null
  | bool (b : Bool)
  | number (text : List Char)
  | string (raw : List Char)
  | array (items : List Tree)
  | object (members : List (List Char × Tree))

instance : Inhabited Tree := ⟨.null⟩

namespace Tree

/-- A string in its quotes. -/
def quoted (raw : List Char) : List Char := '"' :: raw ++ ['"']

mutual
/-- The text without blanks. -/
def chars : Tree → List Char
  | .null => "null".toList
  | .bool true => "true".toList
  | .bool false => "false".toList
  | .number text => text
  | .string raw => quoted raw
  | .array items => '[' :: itemChars items ++ [']']
  | .object members => '{' :: memberChars members ++ ['}']

/-- Items with commas between them. -/
def itemChars : List Tree → List Char
  | [] => []
  | [t] => chars t
  | t :: rest => chars t ++ ',' :: itemChars rest

/-- Members with commas between them. -/
def memberChars : List (List Char × Tree) → List Char
  | [] => []
  | [(key, t)] => quoted key ++ ':' :: chars t
  | (key, t) :: rest => quoted key ++ ':' :: chars t ++ ',' :: memberChars rest
end

/-- The text without blanks. -/
def text (t : Tree) : String := String.ofList t.chars

mutual
/-- The number of containers around the deepest value, the value's own included. -/
def depth : Tree → Nat
  | .array items => 1 + itemsDepth items
  | .object members => 1 + membersDepth members
  | _ => 0

/-- The greatest depth of a list of items. -/
def itemsDepth : List Tree → Nat
  | [] => 0
  | t :: rest => max (depth t) (itemsDepth rest)

/-- The greatest depth of a list of members. -/
def membersDepth : List (List Char × Tree) → Nat
  | [] => 0
  | (_, t) :: rest => max (depth t) (membersDepth rest)
end

/-! ## Tokens -/

/-- A token: a mark, a string as written between its quotes, or a word. -/
inductive Token
  | mark (c : Char)
  | string (raw : List Char)
  | word (text : List Char)
deriving DecidableEq, Repr

/-- The four blanks of JSON. -/
def isSpace (c : Char) : Bool := c == ' ' || c == '\t' || c == '\n' || c == '\r'

/-- The marks of JSON. -/
def isMark (c : Char) : Bool := "[]\x7b\x7d,:".toList.contains c

def isHex (c : Char) : Bool :=
  c.isDigit || ('a' ≤ c && c ≤ 'f') || ('A' ≤ c && c ≤ 'F')

/-- What may stand between quotes: no control character, no quote, and the escapes of JSON. -/
def isStringBody : List Char → Bool
  | [] => true
  | '\\' :: 'u' :: a :: b :: c :: d :: rest =>
    isHex a && isHex b && isHex c && isHex d && isStringBody rest
  | '\\' :: c :: rest => "\"\\/bfnrt".toList.contains c && isStringBody rest
  | c :: rest => c != '\\' && c != '"' && 0x20 ≤ c.toNat && isStringBody rest

/-- The digits at the front, at least one, and what follows them. -/
def digits? (cs : List Char) : Option (List Char × List Char) :=
  match cs.takeWhile Char.isDigit with
  | [] => none
  | ds => some (ds, cs.dropWhile Char.isDigit)

/-- An exponent and nothing after it, or nothing at all. -/
def isExponent : List Char → Bool
  | [] => true
  | e :: '+' :: rest => (e == 'e' || e == 'E') && (digits? rest).any (·.2.isEmpty)
  | e :: '-' :: rest => (e == 'e' || e == 'E') && (digits? rest).any (·.2.isEmpty)
  | e :: rest => (e == 'e' || e == 'E') && (digits? rest).any (·.2.isEmpty)

/-- A fraction, an exponent, both or neither. -/
def isFraction : List Char → Bool
  | '.' :: rest =>
    match digits? rest with
    | some (_, after) => isExponent after
    | none => false
  | rest => isExponent rest

/-- A number of JSON without its sign: no leading zero before another digit. -/
def isUnsigned (cs : List Char) : Bool :=
  match digits? cs with
  | some (['0'], after) => isFraction after
  | some ('0' :: _, _) => false
  | some (_, after) => isFraction after
  | none => false

/-- A number of JSON. -/
def isNumber : List Char → Bool
  | '-' :: rest => isUnsigned rest
  | cs => isUnsigned cs

/-- Where the scan of the characters stands; what is read so far stands in reverse. -/
inductive Scan
  | between
  | inWord (read : List Char)
  | inString (read : List Char)
  | escaped (read : List Char)

/-- The tokens from a state of the scan on; `none` inside an unclosed string. -/
def scan : Scan → List Char → Option (List Token)
  | .between, [] => some []
  | .inWord read, [] => some [.word read.reverse]
  | .inString _, [] => none
  | .escaped _, [] => none
  | .between, c :: cs =>
    if isSpace c then scan .between cs
    else if c = '"' then scan (.inString []) cs
    else if isMark c then (scan .between cs).map (.mark c :: ·)
    else scan (.inWord [c]) cs
  | .inWord read, c :: cs =>
    if isSpace c then (scan .between cs).map (.word read.reverse :: ·)
    else if c = '"' then (scan (.inString []) cs).map (.word read.reverse :: ·)
    else if isMark c then (scan .between cs).map (.word read.reverse :: .mark c :: ·)
    else scan (.inWord (c :: read)) cs
  | .inString read, c :: cs =>
    if c = '"' then (scan .between cs).map (.string read.reverse :: ·)
    else if c = '\\' then scan (.escaped (c :: read)) cs
    else scan (.inString (c :: read)) cs
  | .escaped read, c :: cs => scan (.inString (c :: read)) cs

/-- The tokens of a text. -/
def tokens? (cs : List Char) : Option (List Token) := scan .between cs

/-! ## Reading -/

/-- The most containers that may stand around a value. -/
def depthLimit : Nat := Sql.limits.documentDepth

/-- An open container, what it holds so far in reverse. -/
inductive Frame
  | array (items : List Tree)
  | object (members : List (List Char × Tree))
  | member (members : List (List Char × Tree)) (key : List Char)

/-- What may come next. -/
inductive Phase
  | value
  | firstItem
  | key
  | firstKey
  | colon
  | separator

/-- The state of reading: inside some containers, or done. -/
inductive Reading
  | expecting (phase : Phase) (stack : List Frame)
  | done (t : Tree)

namespace Reading

/-- Puts a complete value into the innermost container. -/
def complete (t : Tree) : List Frame → Option Reading
  | [] => some (.done t)
  | .array items :: rest => some (.expecting .separator (.array (t :: items) :: rest))
  | .member members key :: rest =>
    some (.expecting .separator (.object ((key, t) :: members) :: rest))
  | .object _ :: _ => none

/-- Opens a container unless too many are open. -/
def enter (phase : Phase) (frame : Frame) (stack : List Frame) : Option Reading :=
  if stack.length < depthLimit then some (.expecting phase (frame :: stack)) else none

/-- The value a word writes. -/
def wordTree? (w : List Char) : Option Tree :=
  if w = "null".toList then some .null
  else if w = "true".toList then some (.bool true)
  else if w = "false".toList then some (.bool false)
  else if isNumber w then some (.number w)
  else none

/-- A value begins. -/
def value (stack : List Frame) : Token → Option Reading
  | .mark '[' => enter .firstItem (.array []) stack
  | .mark '{' => enter .firstKey (.object []) stack
  | .string raw => if isStringBody raw then complete (.string raw) stack else none
  | .word w => (wordTree? w).bind (complete · stack)
  | .mark _ => none

/-- Takes one token. -/
def step : Reading → Token → Option Reading
  | .done _, _ => none
  | .expecting .value stack, token => value stack token
  | .expecting .firstItem (.array [] :: rest), .mark ']' => complete (.array []) rest
  | .expecting .firstItem stack, token => value stack token
  | .expecting .firstKey (.object [] :: rest), .mark '}' => complete (.object []) rest
  | .expecting .firstKey (.object members :: rest), .string raw
  | .expecting .key (.object members :: rest), .string raw =>
    if isStringBody raw then some (.expecting .colon (.member members raw :: rest)) else none
  | .expecting .colon stack, .mark ':' => some (.expecting .value stack)
  | .expecting .separator (.array items :: rest), .mark ',' =>
    some (.expecting .value (.array items :: rest))
  | .expecting .separator (.array items :: rest), .mark ']' => complete (.array items.reverse) rest
  | .expecting .separator (.object members :: rest), .mark ',' =>
    some (.expecting .key (.object members :: rest))
  | .expecting .separator (.object members :: rest), .mark '}' =>
    complete (.object members.reverse) rest
  | _, _ => none

end Reading

/-- The tree of a text in the JSON grammar. -/
def ofChars? (cs : List Char) : Option Tree :=
  match (tokens? cs).bind fun ts => ts.foldlM Reading.step (.expecting .value []) with
  | some (.done t) => some t
  | _ => none

/-- The tree of a text in the JSON grammar. -/
def read? (text : String) : Option Tree := ofChars? text.toList

end Tree

end Dossier
