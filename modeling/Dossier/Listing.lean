import Dossier.Field.Resolver
import Dossier.Json.Basic

/-!
# Order and page of a listing

A `Listing` says in what order documents are given and which stretch of them. Insertion order is
always the last key, so the order is total. A skip without a limit is written with the limit `-1`,
which is none.
-/

namespace Dossier

/-- The direction of a sort key. -/
inductive Direction
  | ascending
  | descending
deriving DecidableEq, Repr

/-- A field to sort by. -/
structure SortKey where
  field : FieldRef
  direction : Direction
deriving DecidableEq

/-- The order of a listing and the stretch of it to give. -/
structure Listing where
  sort : Option (List SortKey)
  limit : Option Nat
  skip : Option Nat

/-- A listing as it is asked for: a sort specification, further keys, and the stretch. -/
structure ListingRequest where
  sort : Option Json
  keys : List (String × Direction)
  limit : Option Nat
  skip : Option Nat

namespace Direction

/-- The direction as SQL. -/
def text : Direction → String
  | ascending => "ASC"
  | descending => "DESC"

end Direction

namespace SortKey

/-- Reads the entry of a sort specification: `1` is ascending, `-1` descending. -/
def parse (field : String) (direction : Json) : Except CompileError SortKey := do
  let direction ←
    match direction with
    | .number n =>
      match n.signed? with
      | some 1 => pure Direction.ascending
      | some (-1) => pure Direction.descending
      | _ => throw (.invalidDirection field)
    | _ => throw (.invalidDirection field)
  return ⟨← FieldRef.parse field, direction⟩

/-- The key as SQL. -/
def text (r : Resolver) (key : SortKey) : String :=
  (r.operand key.field).text ++ " " ++ key.direction.text

end SortKey

namespace Listing

/-- All documents in insertion order. -/
def all : Listing := ⟨none, none, none⟩

/-- The first document in insertion order. -/
def first : Listing := ⟨none, some 1, none⟩

/-- Reads a sort specification, an object of fields and directions. -/
def parseSort : Json → Except CompileError (List SortKey)
  | .object entries => entries.mapM fun e => SortKey.parse e.1 e.2
  | _ => .error (.notAnObject .sort)

/-- The keys to sort by before insertion order. -/
def keys (l : Listing) : List SortKey := l.sort.getD []

/-- Adds a last key. -/
def sortBy (l : Listing) (field : String) (direction : Direction) :
    Except CompileError Listing := do
  return { l with sort := some (l.keys ++ [⟨← FieldRef.parse field, direction⟩]) }

/-- The `ORDER BY` clause. -/
def orderText (l : Listing) (r : Resolver) : String :=
  " ORDER BY " ++ joinWith ", " (l.keys.map (SortKey.text r) ++ [orderColumn ++ " ASC"])

/-- A number in decimal. -/
def natText (n : Nat) : String := String.ofList (Nat.toDigits 10 n)

/-- The `LIMIT` clause, or nothing. -/
def pageText (l : Listing) : String :=
  match l.limit, l.skip with
  | none, none => ""
  | some limit, none => " LIMIT " ++ natText limit
  | some limit, some skip => " LIMIT " ++ natText limit ++ " OFFSET " ++ natText skip
  | none, some skip => " LIMIT -1 OFFSET " ++ natText skip

/-- Order and page as SQL. -/
def text (l : Listing) (r : Resolver) : String := l.orderText r ++ l.pageText

end Listing

namespace ListingRequest

/-- Reads the specification, then the further keys. -/
def listing (r : ListingRequest) : Except CompileError Listing := do
  let sort ← r.sort.mapM Listing.parseSort
  r.keys.foldlM (fun l key => l.sortBy key.1 key.2) ⟨sort, r.limit, r.skip⟩

end ListingRequest

end Dossier
