import Dossier.Collection.Basic

/-!
# Promoted paths

Promoting a path gives it a column of its own, triggers that copy the path's value into the column
on every insert and body update, and an index; the registry then tells filters to read the column.
All of it happens in one transaction. Only bringing the older rows up to date may fail without harm:
it is reported, and the promotion goes on.
-/

namespace Dossier

open Text

/-- A promoted path as its promotion answers it. -/
structure PromotedColumn where
  path : String
  column : String
  unique : Bool
  createdAt : Int
deriving DecidableEq, Repr

namespace PromotedColumn

/-- The order of a listing: by the time of the first promotion, then by the path. -/
def before (a b : PromotedColumn) : Bool :=
  a.createdAt < b.createdAt || (a.createdAt == b.createdAt && decide (a.path ≤ b.path))

end PromotedColumn

namespace Promotion

/-- The promotion as it is answered. -/
def shown (p : Promotion) : PromotedColumn := ⟨p.path.text, p.column, p.unique, p.createdAt⟩

end Promotion

namespace FieldPath

/-- The columns that no promoted path may take. -/
def reservedColumns : List String := systemColumns ++ [orderColumn]

/-- The column for a path, unless the path or the column is reserved. -/
def targetColumn (path : FieldPath) : Except CompileError String :=
  if isReserved path.head then .error (.protectedField path.text)
  else if reservedColumns.any (sameName path.column) then
    .error (.invalidPath path.text (.reservedColumn path.column))
  else .ok path.column

end FieldPath

namespace CollectionName

/-- A name made of the collection's, of others and of a last part. -/
def derived (name : CollectionName) (parts : List String) : String :=
  joinWith "__" (name.text :: parts)

/-- The triggers that keep a promoted column equal to its path. -/
def copyTriggers (name : CollectionName) (path : FieldPath) (column : String) : List Trigger :=
  [⟨name.derived [column, "sync_insert"], name.text, .insert, .copy path column⟩,
    ⟨name.derived [column, "sync_update"], name.text, .bodyUpdate, .copy path column⟩]

/-- The index of one promoted column. -/
def columnIndex (name : CollectionName) (column : String) (unique : Bool) : Index :=
  ⟨name.derived [column, if unique then "uniq" else "idx"], name.text, [column], unique⟩

/-- The entry of a path that is promoted at a time. -/
def promotion (name : CollectionName) (path : FieldPath) (unique : Bool) (time : Int) : Promotion :=
  ⟨name.text, path, path.column, unique, time, rfl⟩

section
variable (name : CollectionName) (path : FieldPath) (unique : Bool) (time : Int)

@[simp] theorem promotion_collection : (name.promotion path unique time).collection = name.text := rfl
@[simp] theorem promotion_path : (name.promotion path unique time).path = path := rfl
@[simp] theorem promotion_column : (name.promotion path unique time).column = path.column := rfl
@[simp] theorem promotion_unique : (name.promotion path unique time).unique = unique := rfl

end

/-- The index of several promoted columns together. -/
def compoundIndex (name : CollectionName) (columns : List String) : Index :=
  ⟨name.derived (columns ++ ["idx"]), name.text, columns, false⟩

end CollectionName

namespace Database

/-- The promoted path that has a column already. -/
def pathOfColumn? (db : Database) (collection column : String) : Option FieldPath :=
  ((db.promotionsOf collection).find? fun p => sameName p.column column).map Promotion.path

/-- Enters a promotion into a registry. An entry of the path keeps its column and its time, and what was
unique stays unique. -/
def enter (p : Promotion) : List Promotion → List Promotion
  | [] => [p]
  | q :: rest =>
    if q.collection = p.collection && q.path = p.path then
      { q with unique := q.unique || p.unique } :: rest
    else q :: enter p rest

/-- Records a promotion. -/
def recordPromotion (db : Database) (p : Promotion) : Database :=
  { db with promotions := enter p db.promotions }

/-- The promotion of a path in the registry. -/
def promotion? (db : Database) (collection : String) (path : FieldPath) : Option Promotion :=
  (db.promotionsOf collection).find? fun p => p.path = path

end Database

namespace Collection

open Dossier.Action

/-- Brings the older rows up to date, and reports when that fails. -/
def fillColumn (c : Collection) (path : FieldPath) (column : String) : Action Unit := do
  match ← attempt (transaction (alter fun db => db.fillColumn c.name.text column path)) with
  | .ok () => return
  | .error e => report (.backfillFailed c.name.text path.text e)

/-- The steps of a promotion. -/
def promotePath (c : Collection) (path : FieldPath) (unique : Bool) : Action PromotedColumn := do
  let column ← ofRequest path.targetColumn
  if let some other ← read fun db => .ok (db.pathOfColumn? c.name.text column) then
    if other ≠ path then throw (.invalid (.columnTaken column other.text))
  let present ← read fun db => do return (← db.tableOf c.name.text).hasColumn column
  if !present then alter fun db => db.addColumn c.name.text column
  alter fun db => db.replaceTriggers (c.name.copyTriggers path column)
  c.fillColumn path column
  alter fun db => db.createIndex (c.name.columnIndex column unique)
  let entry := c.name.promotion path unique (← now)
  alter fun db => .ok (db.recordPromotion entry)
  let recorded ← read fun db => .ok (db.promotion? c.name.text path)
  return (recorded.getD entry).shown

/-- Reports a promotion. -/
def reportPromotion (c : Collection) (p : PromotedColumn) : Action Unit :=
  report (.promotionCompleted c.name.text p.path p.unique)

/-- Promotes a path. -/
def promote (c : Collection) (path : String) (unique : Bool) : Action PromotedColumn := do
  let path ← ofRequest (FieldPath.parse path)
  let p ← transaction (c.promotePath path unique)
  c.reportPromotion p
  return p

/-- Promotes paths and, if there are several, makes an index over all of them, which cannot be
unique. -/
def promoteCompound (c : Collection) (paths : List String) (unique : Bool) :
    Action (List PromotedColumn) := do
  let paths ← ofRequest (paths.mapM FieldPath.parse)
  if unique && 1 < paths.length then throw (.compoundUnique (paths.map FieldPath.text))
  let columns ← transaction do
    let columns ← paths.mapM fun p => c.promotePath p unique
    if 1 < columns.length then
      alter fun db => db.createIndex (c.name.compoundIndex (columns.map PromotedColumn.column))
    return columns
  columns.forM c.reportPromotion
  return columns

/-- The promotions of the collection, oldest first. -/
def promotions (c : Collection) : Action (List PromotedColumn) :=
  read fun db => .ok (((db.promotionsOf c.name.text).map Promotion.shown).mergeSort
    PromotedColumn.before)

end Collection

end Dossier
