import Dossier.Error
import Dossier.Field.Resolver
import Dossier.Text.Ascii

/-!
# Names of collections

A collection is stored in a table of its name: an ASCII identifier that does not begin like the
tables of the engine or of the store itself. `createText` is the statement that makes the table.
-/

namespace Dossier

open Text

/-- The prefixes that a collection may not have, in any case. -/
def reservedPrefixes : List String := ["sqlite_", "docstore_"]

def isNameStart (c : Char) : Bool := c.isAlpha || c == '_'
def isNameChar (c : Char) : Bool := c.isAlphanum || c == '_'

/-- The name of a collection. -/
structure CollectionName where
  text : String
  plain : text.toList.all isNameChar = true
deriving DecidableEq

namespace CollectionName

/-- The most bytes that a name may have. -/
def lengthLimit : Nat := 64

/-- Reads a name. -/
def parse (name : String) : Except CompileError CollectionName :=
  match name.toList with
  | [] => .error (.invalidName name .empty)
  | first :: _ =>
    if lengthLimit < name.utf8ByteSize then .error (.invalidName name .tooLong)
    else if !isNameStart first then .error (.invalidName name .badStart)
    else if plain : name.toList.all isNameChar = true then
      if reservedPrefixes.any fun p => p.toList.isPrefixOf (foldCase name).toList then
        .error (.invalidName name .reserved)
      else .ok ⟨name, plain⟩
    else .error (.invalidName name .badCharacter)

/-- The name in double quotes. -/
def quoted (name : CollectionName) : String := quoteName name.text

/-- The statement that makes the collection's table. -/
def createText (name : CollectionName) : String :=
  "CREATE TABLE IF NOT EXISTS " ++ name.quoted ++ " (
            id TEXT PRIMARY KEY NOT NULL,
            data TEXT NOT NULL CHECK (json_valid(data)),
            created_at INTEGER NOT NULL,
            updated_at INTEGER NOT NULL
        )"

end CollectionName

end Dossier
