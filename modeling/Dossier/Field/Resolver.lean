import Dossier.Field.Path

/-!
# Where a field is stored

A field name refers to a column that every document has (`_id` and `id`, `created_at`,
`updated_at`) or to a path in the body. A `Resolver` knows the promoted paths of a collection; a
promoted path is read from its column, any other is extracted from the body.
-/

namespace Dossier

/-- The columns of every document that a filter can name. -/
inductive SystemColumn
  | id
  | createdAt
  | updatedAt
deriving DecidableEq, Repr

namespace SystemColumn

/-- The name of the column. -/
def name : SystemColumn → String
  | id => "id"
  | createdAt => "created_at"
  | updatedAt => "updated_at"

end SystemColumn

/-- The columns of every collection, in order. -/
def systemColumns : List String := ["id", "data", "created_at", "updated_at"]

/-- The column of the documents themselves. -/
def bodyColumn : String := "data"

/-- The key of insertion order. -/
def orderColumn : String := "rowid"

/-- The field names that address the identifier. -/
def idFields : List String := ["_id", "id"]

/-- The field names that no document may use at its top. -/
def isReserved (field : String) : Bool :=
  idFields.contains field || field == "created_at" || field == "updated_at"

/-- A field name read as a place of storage. -/
inductive FieldRef
  | system (column : SystemColumn)
  | body (path : FieldPath)
deriving DecidableEq

namespace FieldRef

/-- The system column that a name addresses. -/
def systemColumn? (field : String) : Option SystemColumn :=
  if idFields.contains field then some .id
  else if field = "created_at" then some .createdAt
  else if field = "updated_at" then some .updatedAt
  else none

/-- Reads a field name. -/
def parse (field : String) : Except CompileError FieldRef :=
  match systemColumn? field with
  | some c => .ok (.system c)
  | none => (FieldPath.parse field).map .body

end FieldRef

/-- A name in double quotes, quotes inside it doubled. -/
def quoteName (name : String) : String :=
  String.ofList ('"' :: name.toList.flatMap (fun c => if c = '"' then ['"', '"'] else [c]) ++ ['"'])

/-- A text as it stands inside an SQL string literal. -/
def escapeLiteral (text : String) : String :=
  String.ofList (text.toList.flatMap fun c => if c = '\'' then ['\'', '\''] else [c])

/-- The value of a path in the document that `source` holds. -/
def extractText (source : String) (path : FieldPath) : String :=
  "json_extract(" ++ source ++ ", " ++ path.literal ++ ")"

theorem extractText_eq (source : String) (path : FieldPath) :
    extractText source path = "json_extract(" ++ source ++ ", " ++ path.literal ++ ")" := (rfl)

/-- What a condition reads from a row. -/
inductive Operand
  | system (column : SystemColumn)
  | promoted (column : String)
  | extract (path : FieldPath)
deriving DecidableEq

namespace Operand

/-- The operand as SQL text. -/
def text : Operand → String
  | system c => c.name
  | promoted column => quoteName column
  | extract path => extractText bodyColumn path

end Operand

/-- The promoted paths of a collection. -/
structure Resolver where
  promoted : List FieldPath

namespace Resolver

/-- The path has a column. -/
def isPromoted (r : Resolver) (path : FieldPath) : Bool := r.promoted.contains path

/-- Some promoted path overlaps the path. -/
def touches (r : Resolver) (path : FieldPath) : Bool := r.promoted.any (·.overlaps path)

/-- What to read for a field. -/
def operand (r : Resolver) : FieldRef → Operand
  | .system c => .system c
  | .body path => if r.isPromoted path then .promoted path.column else .extract path

end Resolver

end Dossier
