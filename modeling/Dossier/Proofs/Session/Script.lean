import Dossier.Proofs.Session.Run

/-!
# Scripts

The steps that requests to collections are made of: statements, levels of their own, and what changes nothing but
the identifiers and the events. What each of these steps does, and what follows of the first and the second step of a
sequence for both together, holds of every request (`CollectionRequest.script_run`). A database is changed in a few ways
only (`Database.Change`).
-/

namespace Dossier

/-- One step in which requests to collections change a database. -/
inductive Database.Change (db : Database) : Database → Prop
  | createTable {after : Database} (name : CollectionName) (made : db.createTable name = .ok after) : Change db after
  | run {after : Database} (name : CollectionName) (r : Resolver) (s : Statement .changed) (n : Nat)
    (made : db.run name r s = .ok (n, after)) : Change db after
  | addColumn {after : Database} (table column : String) (made : db.addColumn table column = .ok after) : Change db after
  | fillColumn {after : Database} (table column : String) (path : FieldPath)
    (made : db.fillColumn table column path = .ok after) : Change db after
  | createIndex {after : Database} (i : Index) (made : db.createIndex i = .ok after) : Change db after
  | replaceTriggers {after : Database} (triggers : List Trigger) (made : db.replaceTriggers triggers = .ok after) :
    Change db after
  | createTrigger {after : Database} (trigger : Trigger) (made : db.createTrigger trigger = .ok after) : Change db after
  | recordPromotion (entry : Promotion) : Change db (db.recordPromotion entry)
  | recordCheck (entry : CheckEntry) : Change db (db.recordCheck entry)
  | putBody {after : Database} (table id data : String) (n : Nat)
    (made : (db.updateRows table fun t => (t.rows.filter fun r => r.id = id).mapM fun r => do
      return (r, { r with data := ← db.admitBody t r data })) = .ok (n, after)) : Change db after

namespace Action

/-- An action that is made of statements and of levels of its own. It leaves the levels that are open before it
alone. -/
inductive Script : {α : Type} → Action α → Prop
  | pure {α : Type} (x : α) : Script (Pure.pure x : Action α)
  | throw {α : Type} (e : StoreError) : Script (MonadExcept.throw e : Action α)
  | bind {α β : Type} {a : Action α} {f : α → Action β} (first : Script a) (next : ∀ x, Script (f x)) : Script (a >>= f)
  | attempt {α : Type} {a : Action α} (h : Script a) : Script (Action.attempt a)
  | report (e : Event) : Script (Action.report e)
  | nextId : Script Action.nextId
  | now : Script Action.now
  | read {α : Type} (f : Database → Except EngineError α) : Script (Action.read f)
  | write {α : Type} {f : Database → Except EngineError (α × Database)}
    (changes : ∀ db x after, f db = .ok (x, after) → db.Change after) : Script (Action.write f)
  | ensureTable (name : CollectionName) : Script (connect fun c => c.ensureTable name)
  | transaction {α : Type} {a : Action α} (h : Script a) : Script (Action.transaction a)

namespace Script

variable {α β : Type} {a : Action α} {f : α → Action β}

theorem map (g : α → β) (h : Script a) : Script (g <$> a) := by
  rw [map_eq_pure_bind]
  exact h.bind fun _ => .pure _

theorem ofRequest (r : Except CompileError α) : Script (Action.ofRequest r) := by
  cases r with
  | ok x => exact .pure x
  | error e => exact .throw _

theorem ofStore (r : Except StoreError α) : Script (Action.ofStore r) := by
  cases r with
  | ok x => exact .pure x
  | error e => exact .throw _

theorem alter {g : Database → Except EngineError Database} (changes : ∀ db after, g db = .ok after → db.Change after) :
    Script (Action.alter g) := by
  refine write fun db x after made => changes db after ?_
  cases eq : g db <;> rw [eq] at made <;> cases made
  rfl

theorem execute (name : CollectionName) (r : Resolver) {answer : Answer} (s : Statement answer) :
    Script (Action.execute name r s) := by
  cases answer with
  | changed => exact write fun db n after made => .run name r s n made
  | rows => exact read fun db => (db.run name r s).map (·.1)
  | number => exact read fun db => (db.run name r s).map (·.1)

theorem mapM {g : α → Action β} (each : ∀ x, Script (g x)) (l : List α) : Script (l.mapM g) := by
  induction l with
  | nil => exact pure _
  | cons x rest ih =>
    rw [List.mapM_cons]
    exact (each x).bind fun _ => ih.bind fun _ => pure _

theorem forM {g : α → Action Unit} (each : ∀ x, Script (g x)) (l : List α) : Script (l.forM g) := by
  induction l with
  | nil => exact pure _
  | cons x rest ih => exact (each x).bind fun _ => ih

end Script

/-- A plain action is a script. -/
theorem Plain.script (h : Plain a) : Script a := by
  induction h with
  | pure x => exact .pure x
  | throw e => exact .throw e
  | bind _ _ first next => exact first.bind next
  | nextId => exact .nextId
  | now => exact .now
  | execute name r s => exact .execute name r s
  | transaction _ ih => exact .transaction ih

end Action

/-! ## Collections -/

namespace Collection

open Dossier.Action

variable (c : Collection)

theorem script_openNamed (name : String) : Script (openNamed name) :=
  (Script.ofRequest _).bind fun _ => (Script.ensureTable _).bind fun _ => (Script.read _).bind fun _ => .pure _

/-! ## Promotions and checks -/

theorem script_fillColumn (path : FieldPath) (column : String) : Script (c.fillColumn path column) := by
  refine (Script.attempt (.transaction (.alter fun _ _ made => .fillColumn _ _ _ made))).bind fun outcome => ?_
  cases outcome with
  | ok _ => exact .pure _
  | error e => exact .report _

theorem script_installColumn (path : FieldPath) (column : String) (unique : Bool) : Script (c.installColumn path column unique) :=
  (Script.alter fun _ _ made => .replaceTriggers _ made).bind fun _ => (c.script_fillColumn path column).bind fun _ =>
    (Script.alter fun _ _ made => .createIndex _ made).bind fun _ => Script.now.bind fun _ =>
      (Script.alter fun db _ made => by cases made; exact .recordPromotion _).bind fun _ => (Script.read _).bind fun _ => .pure _

theorem script_placeColumn (path : FieldPath) (column : String) (unique : Bool) : Script (c.placeColumn path column unique) := by
  refine (Script.read _).bind fun present => ?_
  split
  · exact (Script.alter fun _ _ made => .addColumn _ _ made).bind fun _ => c.script_installColumn path column unique
  · exact c.script_installColumn path column unique

theorem script_promotePath (path : FieldPath) (unique : Bool) : Script (c.promotePath path unique) := by
  refine (Script.ofRequest _).bind fun column => (Script.read _).bind fun taken => ?_
  have placed := c.script_placeColumn path column unique
  split
  · split
    · exact (Script.throw _).bind fun _ => placed
    · exact placed
  · exact placed

theorem script_promotePaths (paths : List FieldPath) (unique : Bool) : Script (c.promotePaths paths unique) := by
  refine (Script.mapM (fun p => c.script_promotePath p unique) paths).bind fun columns => ?_
  split
  · exact (Script.alter fun _ _ made => .createIndex _ made).bind fun _ => .pure _
  · exact .pure _

theorem script_promoteCompound (paths : List String) (unique : Bool) : Script (c.promoteCompound paths unique) := by
  have rest : ∀ paths : List FieldPath, Script (do
      let columns ← Action.transaction (c.promotePaths paths unique)
      columns.forM c.reportPromotion
      return columns) := fun paths =>
    (Script.transaction (c.script_promotePaths paths unique)).bind fun columns =>
      (Script.forM (fun _ => .report _) columns).bind fun _ => .pure _
  rw [promoteCompound_eq]
  refine (Script.ofRequest _).bind fun paths => ?_
  split
  · exact (Script.throw _).bind fun _ => rest paths
  · exact rest paths

theorem script_installCheck (path : FieldPath) (column expression : String) :
    Script (c.installCheck path column expression) := by
  unfold installCheck
  simp only
  split
  · exact .throw _
  · refine (Script.alter fun _ _ made => .replaceTriggers _ made).bind fun _ => Script.now.bind fun _ =>
      (Script.alter fun db _ made => by cases made; exact .recordCheck _).bind fun _ => (Script.read _).bind fun entry => ?_
    cases entry with
    | some entry => exact .pure _
    | none => exact .throw _

end Collection

open Dossier.Action in
/-- A request to a collection is made of statements and of levels of its own. -/
theorem CollectionRequest.script_perform (c : Collection) (r : CollectionRequest) : Script (r.perform c) := by
  cases r with
  | name => exact .pure _
  | insertOne document => exact (c.plain_insertOne document).script.map _
  | insertMany documents => exact (c.plain_insertMany documents).script.map _
  | find filter listing wanted =>
    exact (Script.ofRequest _).bind fun _ => (c.plain_find filter _).script.bind fun _ => .pure _
  | findOne filter => exact (c.plain_findOne filter).script.map _
  | findRaw predicate listing wanted =>
    exact (Script.ofRequest _).bind fun _ => (c.plain_findRaw predicate _).script.bind fun _ => .pure _
  | count filter => exact (c.plain_count filter).script.map _
  | update cardinality filter change upsert =>
    cases cardinality with
    | one => exact (c.plain_updateOne filter change upsert).script.map _
    | many => exact (c.plain_updateMany filter change upsert).script.map _
  | replaceOne filter replacement upsert => exact (c.plain_replaceOne filter replacement upsert).script.map _
  | delete cardinality filter => exact (c.plain_delete filter cardinality).script.map _
  | promote path unique =>
    exact ((Script.ofRequest _).bind fun path => (Script.transaction (c.script_promotePath path unique)).bind fun _ =>
      (Script.report _).bind fun _ => .pure _).map _
  | promoteCompound paths unique => exact (c.script_promoteCompound paths unique).map _
  | addCheck path expression =>
    exact ((Script.ofRequest _).bind fun path => (Script.ofStore _).bind fun expression => (Script.ofRequest _).bind
      fun column => (Script.transaction (c.script_installCheck path column expression)).bind fun _ =>
        (Script.report _).bind fun _ => .pure _).map _
  | promotions | checks | schema | columnValues => exact (Script.read _).map _
  | freeze => exact (Script.alter fun _ _ made => .createTrigger _ made).bind fun _ => .pure _
  | putBody id data => exact (Script.write fun _ n _ made => .putBody _ _ _ n made).map _

open Dossier.Action in
/-- So it is with the opening of the collection in front. -/
theorem CollectionRequest.script_run (collection : String) (r : CollectionRequest) : Script (r.run collection) :=
  (Collection.script_openNamed collection).bind fun c => r.script_perform c

/-! ## What changes keep -/

namespace Action

variable {P : Database → Prop} {α : Type} {a : Action α}

/-- What every change of a database keeps, a script keeps; and it leaves the levels below as they are. -/
theorem Script.invariant (h : Script a) (keeps : ∀ db after, P db → db.Change after → P after) (inside : Prop) :
    Invariant inside P a := by
  induction h generalizing inside with
  | pure x => exact .pure x
  | throw e => exact .throw e
  | bind _ _ first next => exact (first inside).bind fun x => next x inside
  | attempt _ ih => exact (ih inside).attempt
  | report e => exact .report e
  | nextId => exact .nextId
  | now => exact .now
  | read g => exact .read g
  | write changes => exact .write fun db x after start made => keeps db after start (changes db x after made)
  | ensureTable name => exact .ensureTable name fun db after start made => keeps db after start (.createTable name made)
  | transaction _ ih => exact .transaction (ih True)

end Action

/-- What every change of a database keeps, all requests keep. -/
theorem kept_of_changes {P : Database → Prop} (empty : P .empty) (version : ∀ db version, P db → P { db with version })
    (keeps : ∀ db after, P db → db.Change after → P after) : Kept P fun _ => True where
  empty := empty
  version := version
  opening name := (Collection.script_openNamed name).invariant keeps False
  perform c request _ := (request.script_perform c).invariant keeps False

end Dossier
