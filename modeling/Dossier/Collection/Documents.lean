import Dossier.Collection.Basic

/-!
# The documents of a collection

A filter is read before any statement runs, and each statement compiles it for itself, for the paths that were promoted when the
collection was opened.

A document to insert is split into its identifier and its body. No body has a reserved field at its top. Several documents are all
checked before the first one is written.

Changes that touch no promoted path are made by one statement, after a search for documents that cannot take them. Any other update
is applied to the decoded bodies, and the changed ones are overwritten one by one. Either way the first document that cannot take
the update fails the whole. With `upsert`, an update that matches nothing inserts the document that the equalities of the filter
describe, updated.
-/

namespace Dossier

/-! ## Reading and deleting -/

namespace Collection

open Dossier.Action

/-- Reads a filter. -/
def readFilter (filter : Json) : Action Filter := ofRequest (Filter.parse filter)

/-- The documents that a filter selects. -/
def find (c : Collection) (filter : Json) (listing : Listing) : Action (List Document) := do
  let f ← readFilter filter
  let rows ← c.execute (.find (c.predicate f) listing)
  ofStore (rows.mapM Row.document)

/-- The first document that a filter selects, in insertion order. -/
def findOne (c : Collection) (filter : Json) : Action (Option Document) :=
  return (← c.find filter .first).head?

/-- The documents that a raw predicate selects. -/
def findRaw (c : Collection) (p : RawPredicate) (listing : Listing) : Action (List Document) := do
  let rows ← c.execute (.findRaw p listing)
  ofStore (rows.mapM Row.document)

/-- How many documents a filter selects. -/
def count (c : Collection) (filter : Json) : Action Int := do
  let f ← readFilter filter
  c.execute (.count (c.predicate f))

/-- Deletes the first document that a filter selects, or all of them, and counts them. -/
def delete (c : Collection) (filter : Json) (cardinality : Cardinality) : Action Nat := do
  let f ← readFilter filter
  c.execute (.delete (c.predicate f) cardinality)

end Collection

/-! ## Inserting -/

/-- A document that is ready to be inserted. -/
structure NewDocument where
  id : String
  body : Fields

namespace NewDocument

/-- The identifiers that a document brings. -/
def supplied (fields : Fields) : List Json := idFields.filterMap fields.get?

/-- The document without its identifier. -/
def bodyOf (fields : Fields) : Fields := idFields.foldl Fields.erase fields

/-- What a document brings: its identifier, if it has one, and its body. -/
def split (document : Json) : Except StoreError (Option Json × Fields) :=
  match document with
  | .object fields =>
    match supplied fields with
    | _ :: _ :: _ => .error (.invalid .twoIdentifiers)
    | supplied =>
      match (Fields.keys (bodyOf fields)).find? isReserved with
      | some field => .error (.compile (.protectedField field))
      | none => .ok (supplied.head?, bodyOf fields)
  | _ => .error (.invalid .notAnObject)

end NewDocument

namespace Collection

open Dossier.Action

/-- Checks a document and gives it an identifier if it brings none. -/
def prepare (document : Json) : Action NewDocument := do
  let (supplied, body) ← ofStore (NewDocument.split document)
  match supplied with
  | some value => return ⟨← ofStore (identifierOf value), body⟩
  | none => return ⟨← nextId, body⟩

/-- Inserts a document that is ready. -/
def insert (c : Collection) (d : NewDocument) : Action Unit := do
  let _ ← c.execute (.insert d.id (Json.object d.body).text (← now))

/-- Inserts a document and gives its identifier. -/
def insertOne (c : Collection) (document : Json) : Action String := do
  let d ← prepare document
  c.insert d
  return d.id

/-- Inserts documents, all or none, and gives their identifiers. -/
def insertMany (c : Collection) (documents : List Json) : Action (List String) := do
  let ready ← documents.mapM prepare
  transaction do
    ready.forM c.insert
    return ready.map NewDocument.id

end Collection

/-! ## Updating -/

/-- What an update has done. -/
structure UpdateResult where
  matched : Nat
  modified : Nat
  upserted : Option String
deriving DecidableEq, Repr

namespace Update

/-- The changes of an update that touches no promoted path. -/
def inPlace? (r : Resolver) : Update → Option Changes
  | change c => if c.paths.any r.touches then none else some c
  | replace _ => none

/-- Writes one equality of a filter into a body and an identifier. -/
def pin (acc : Option String × Fields) (equality : Clause × Json) :
    Except StoreError (Option String × Fields) :=
  match equality.1.field with
  | .system .id => do return (some (← identifierOf equality.2), acc.2)
  | .body path =>
    match acc.2.setAt path equality.2 with
    | .ok body => .ok (acc.1, body)
    | .error e => .error (.apply e)
  | .system _ => .ok acc

/-- The identifier and the body that an upsert inserts; the identifier if the filter has one. -/
def synthesize (u : Update) (f : Filter) : Except StoreError (Option String × Fields) := do
  let (id, body) ← f.equalities.foldlM pin (none, [])
  match u.apply body with
  | .ok body => return (id, body)
  | .error e => throw (.apply e)

end Update

namespace Collection

open Dossier.Action

/-- Makes changes by one statement: the counts of the matching and of the changed documents. -/
def updateInPlace (c : Collection) (f : Filter) (changes : Changes) (cardinality : Cardinality) :
    Action (Nat × Nat) := do
  let p := c.predicate f
  if let some search := Statement.guard? changes.guards p cardinality then
    let code ← c.execute search
    if 0 ≤ code then
      if let some g := changes.guards[code.toNat]? then throw (.apply g.failure)
  let matched ← c.execute (.countTargets p cardinality)
  let modified ← c.execute (.change changes p cardinality (← now))
  return (matched.toNat, modified)

/-- Overwrites the document of a row if the update changes it, and counts it. -/
def overwriteOne (c : Collection) (u : Update) (time : Int) (count : Nat) (d : String × Fields) :
    Action Nat := do
  let body ← ofChange (u.apply d.2)
  if Json.equal (.object body) (.object d.2) then return count
  let _ ← c.execute (.overwrite d.1 (Json.object body).text time)
  return count + 1

/-- Makes an update document by document: the counts of the matching and of the changed ones. -/
def overwriteMatching (c : Collection) (f : Filter) (u : Update) (cardinality : Cardinality) :
    Action (Nat × Nat) := do
  let rows ← c.execute (.fetch (c.predicate f) cardinality)
  let bodies ← ofStore (rows.mapM fun r => do return (r.id, ← r.data.decode))
  let modified ← bodies.foldlM (c.overwriteOne u (← now)) 0
  return (rows.length, modified)

/-- Inserts the document that a filter describes, updated. -/
def upsert (c : Collection) (f : Filter) (u : Update) : Action String := do
  let (supplied, body) ← ofStore (u.synthesize f)
  let id ← match supplied with
    | some id => pure id
    | none => nextId
  c.insert ⟨id, body⟩
  return id

/-- Runs an update, all or nothing. -/
def runUpdate (c : Collection) (f : Filter) (u : Update) (cardinality : Cardinality)
    (insertMissing : Bool) : Action UpdateResult :=
  transaction do
    let (matched, modified) ← match u.inPlace? c.resolver with
      | some changes => c.updateInPlace f changes cardinality
      | none => c.overwriteMatching f u cardinality
    let upserted ←
      if matched = 0 && insertMissing then some <$> c.upsert f u else pure none
    return ⟨matched, modified, upserted⟩

/-- Updates the first document that a filter selects. -/
def updateOne (c : Collection) (filter update : Json) (insertMissing : Bool) :
    Action UpdateResult := do
  let f ← readFilter filter
  let u ← ofRequest (Update.parse update)
  c.runUpdate f u .one insertMissing

/-- Updates all documents that a filter selects; the update has to set something. -/
def updateMany (c : Collection) (filter update : Json) (insertMissing : Bool) :
    Action UpdateResult := do
  let f ← readFilter filter
  let u ← ofRequest (Update.parse update)
  if !u.hasSet then throw .missingSet
  c.runUpdate f u .many insertMissing

/-- Replaces the body of the first document that a filter selects. -/
def replaceOne (c : Collection) (filter replacement : Json) (insertMissing : Bool) :
    Action UpdateResult := do
  let f ← readFilter filter
  match ← ofRequest (Update.parse replacement) with
  | .replace body => c.runUpdate f (.replace body) .one insertMissing
  | .change _ => throw (.invalid .operatorsInReplacement)

end Collection

end Dossier
