import Dossier.Field.Resolver
import Dossier.Sql.Document
import Dossier.Sql.Expr

/-!
# Stored rows

A `Body` is a stored text with the tree that it reads as, so a row never holds a text that is not
JSON. A `Row` is read in two ways: `Row.read` gives the value of an operand of a compiled filter,
`Row.column` the value of a column. The columns beyond those of every table hold what was promoted.
-/

namespace Dossier

open Text

/-- The text of a document and its tree. -/
structure Body where
  text : String
  tree : Tree
  reads : Tree.read? text = some tree

namespace Body

/-- The body with a text, if the text is JSON. -/
def ofText? (text : String) : Option Body :=
  match h : Tree.read? text with
  | some tree => some ⟨text, tree, h⟩
  | none => none

theorem ofText?_eq_some {text : String} {b : Body} (h : ofText? text = some b) : b.text = text := by
  unfold ofText? at h
  split at h
  · obtain rfl := Option.some.inj h; rfl
  · simp at h

theorem ofText?_text (b : Body) : ofText? b.text = some b := by
  obtain ⟨text, tree, reads⟩ := b
  unfold ofText?
  split
  · rename_i t h
    obtain rfl : t = tree := Option.some.inj (h.symm.trans reads)
    rfl
  · rename_i h
    simp [reads] at h

/-- What the body holds at a path: null where it holds nothing. -/
def extract (b : Body) (path : FieldPath) : Value :=
  ((b.tree.lookup? path.segments).map Tree.value).getD .null

end Body

/-- A row of a collection's table. -/
structure Row where
  rowid : Int
  id : String
  data : Body
  createdAt : Int
  updatedAt : Int
  promoted : List (String × Value)

namespace Row

/-- The value of a promoted column; null until something is written. -/
def promotedValue (r : Row) (column : String) : Value :=
  ((r.promoted.find? fun e => sameName e.1 column).map (·.2)).getD .null

/-- Writes a promoted column. -/
def setPromoted (r : Row) (column : String) (v : Value) : Row :=
  { r with promoted := (column, v) :: r.promoted.filter fun e => !sameName e.1 column }

/-- The value of an operand. -/
def read (r : Row) : Operand → Value
  | .system .id => .text r.id
  | .system .createdAt => .integer r.createdAt
  | .system .updatedAt => .integer r.updatedAt
  | .promoted column => r.promotedValue column
  | .extract path => r.data.extract path

/-- The value of a column. -/
def column (r : Row) : Column → Value
  | .id => .text r.id
  | .data => .text r.data.text
  | .createdAt => .integer r.createdAt
  | .updatedAt => .integer r.updatedAt
  | .rowid => .integer r.rowid
  | .promoted name => r.promotedValue name

@[simp] theorem promotedValue_setPromoted (r : Row) (column : String) (v : Value) :
    (r.setPromoted column v).promotedValue column = v := by
  simp [setPromoted, promotedValue]

theorem promotedValue_setPromoted_of_ne (r : Row) {column other : String} (v : Value)
    (h : sameName column other = false) :
    (r.setPromoted column v).promotedValue other = r.promotedValue other := by
  have key : ∀ l : List (String × Value),
      (l.filter fun e => !sameName e.1 column).find? (fun e => sameName e.1 other)
        = l.find? fun e => sameName e.1 other := by
    intro l
    induction l with
    | nil => rfl
    | cons e l ih =>
      by_cases hc : sameName e.1 column = true
      · have : sameName e.1 other = false := by
          simp only [sameName, beq_iff_eq] at hc
          simp only [sameName, hc] at h ⊢
          exact h
        simp [hc, ih, this]
      · simp only [Bool.not_eq_true] at hc
        simp [List.find?_cons, hc, ih]
  simp [setPromoted, promotedValue, h, key]

end Row

end Dossier
