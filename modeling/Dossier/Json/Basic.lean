/-!
# Document values

`Json` is what a document is made of. An object is a list of its entries in order, `Fields`; `get?`,
`put` and `erase` keep that order: a key that is written again keeps its place, a new one comes
last. `Json.equal` is the equality under which an update counts as a change: the order of the keys
of an object does not matter, and an integer never equals a double.
-/

namespace Dossier

/-- A whole number that fits in 64 bits, signed or unsigned. -/
abbrev Whole := { n : Int // -0x8000000000000000 ≤ n ∧ n < 0x10000000000000000 }

/-- A number of a document: whole, or a finite double. -/
inductive Number
  | whole (n : Whole)
  | real (x : Float)

/-- A document value; the entries of an object keep their order. -/
inductive Json
  | null
  | bool (b : Bool)
  | number (n : Number)
  | string (s : String)
  | array (items : List Json)
  | object (fields : List (String × Json))

/-- The entries of an object in order, no key twice. -/
abbrev Fields := List (String × Json)

instance : Inhabited Json := ⟨.null⟩

namespace Whole

/-- The whole number, if 64 bits hold it. -/
def ofInt? (n : Int) : Option Whole :=
  if h : -0x8000000000000000 ≤ n ∧ n < 0x10000000000000000 then some ⟨n, h⟩ else none

/-- The whole number is one of 64 signed bits. -/
def isSigned (n : Whole) : Bool := n.val < 0x8000000000000000

end Whole

namespace Number

/-- The integer a number holds, if it is whole and fits in 64 signed bits. -/
def signed? : Number → Option Int
  | .whole n => if n.isSigned then some n.val else none
  | .real _ => none

/-- The double nearest to the number. -/
def toFloat : Number → Float
  | .whole n => Float.ofInt n.val
  | .real x => x

/-- Two whole numbers, or two doubles, of one value. -/
def equal : Number → Number → Bool
  | .whole a, .whole b => a.val == b.val
  | .real a, .real b => a == b
  | _, _ => false

end Number

namespace Fields

/-- The value under a key. -/
def get? : Fields → String → Option Json
  | [], _ => none
  | (k, v) :: rest, key => if k = key then some v else get? rest key

/-- Writes a value under a key: in its place, or at the end when the key is new. -/
def put : Fields → String → Json → Fields
  | [], key, value => [(key, value)]
  | (k, v) :: rest, key, value =>
    if k = key then (key, value) :: rest else (k, v) :: put rest key value

/-- Takes a key and its value out; the others keep their order. -/
def erase : Fields → String → Fields
  | [], _ => []
  | (k, v) :: rest, key => if k = key then rest else (k, v) :: erase rest key

/-- The keys in order. -/
def keys (fields : Fields) : List String := fields.map (·.1)

@[simp] theorem get?_nil (key : String) : get? [] key = none := rfl

@[simp] theorem get?_put_self (fields : Fields) (key : String) (value : Json) :
    (fields.put key value).get? key = some value := by
  induction fields with
  | nil => simp [put, get?]
  | cons f rest ih =>
    obtain ⟨k, v⟩ := f
    by_cases h : k = key <;> simp [put, get?, h, ih]

theorem get?_put_of_ne (fields : Fields) {key other : String} (value : Json) (h : key ≠ other) :
    (fields.put key value).get? other = fields.get? other := by
  induction fields with
  | nil => simp [put, get?, h]
  | cons f rest ih =>
    obtain ⟨k, v⟩ := f
    by_cases hk : k = key
    · subst hk; simp [put, get?, h]
    · by_cases ho : k = other
      · subst ho; simp [put, get?, hk]
      · simp [put, get?, hk, ho, ih]

end Fields

namespace Json

mutual
/-- Equal as values: numbers by kind and value, objects whatever the order of their keys. -/
def equal : Json → Json → Bool
  | .null, .null => true
  | .bool a, .bool b => a == b
  | .number a, .number b => a.equal b
  | .string a, .string b => a == b
  | .array a, .array b => equalItems a b
  | .object a, .object b => a.length == b.length && within a b
  | _, _ => false

/-- Equal item by item. -/
def equalItems : List Json → List Json → Bool
  | [], [] => true
  | a :: as, b :: bs => equal a b && equalItems as bs
  | _, _ => false

/-- Every entry of the first object is in the second one. -/
def within : List (String × Json) → List (String × Json) → Bool
  | [], _ => true
  | (key, value) :: rest, other =>
    (match Fields.get? other key with
      | some found => equal value found
      | none => false) && within rest other
end

end Json

end Dossier
