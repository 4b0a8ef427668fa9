import Dossier.Proofs.Session.Plain
import Dossier.Proofs.Session.Promotion
import Dossier.Session.Request

/-!
# Failing requests change nothing

`CollectionRequest.atomic_perform`: a request to a collection that fails leaves the database as it was, at any
level. What a request does before its one write or its transaction changes nothing (`Action.Quiet`), the write
and the transaction change nothing if they fail (`Action.Atomic`), and nothing after them fails
(`Action.Sure`).
-/

namespace Dossier

namespace Action

variable {α β : Type} {a : Action α} {f : α → Action β}

/-- The action leaves all levels below the current database as they are. -/
def Framed (a : Action α) : Prop := Invariant True (fun _ => True) a

/-- The action leaves the database as it is. -/
def Quiet (a : Action α) : Prop := ∀ db, Spec False (· = db) a fun _ after => after = db

/-- The action leaves the database as it is if it fails. -/
def Atomic (a : Action α) : Prop := ∀ db, Spec False (· = db) a fun r after => r.isOk = false → after = db

/-- The action does not fail. -/
def Sure (a : Action α) : Prop := Spec False (fun _ => True) a fun r _ => r.isOk = true

/-- Any statement that writes leaves the levels below as they are. -/
theorem stable_true : Database.Stable fun _ => True := fun _ _ _ _ _ _ _ _ => trivial

theorem Framed.of_yields {R : Database → α → Database → Prop} (h : ∀ db, Yields db a (R db)) : Framed a :=
  fun w orderly within _ =>
    have ⟨orderly', base, _⟩ := h w.current w orderly within rfl
    ⟨orderly', base, trivial⟩

/-! ## Quiet actions -/

namespace Quiet

theorem pure (x : α) : Quiet (Pure.pure x : Action α) := fun _ => Spec.pure x fun _ h => h

theorem throw (e : StoreError) : Quiet (MonadExcept.throw e : Action α) := fun _ => Spec.throw e fun _ h => h

theorem bind (first : Quiet a) (next : ∀ x, Quiet (f x)) : Quiet (a >>= f) := fun db =>
  Spec.bind (first db) (fun x => next x db) fun _ _ h => h

theorem map (g : α → β) (h : Quiet a) : Quiet (g <$> a) := fun db => Spec.map (h db) g fun _ _ h => h

theorem ofRequest (r : Except CompileError α) : Quiet (Action.ofRequest r) := fun _ => Spec.ofRequest r fun _ h => h

theorem ofStore (r : Except StoreError α) : Quiet (Action.ofStore r) := fun _ => Spec.ofStore r fun _ h => h

theorem nextId : Quiet Action.nextId := fun _ => Spec.nextId fun _ _ h => h

theorem now : Quiet Action.now := fun _ => Spec.now fun _ _ h => h

theorem read (g : Database → Except EngineError α) : Quiet (Action.read g) := fun _ => Spec.read fun _ h => h

/-- A statement that answers rows or a number reads. -/
theorem execute (name : CollectionName) (r : Resolver) {answer : Answer} (s : Statement answer)
    (reads : answer ≠ .changed) : Quiet (Action.execute name r s) := by
  cases answer with
  | changed => exact absurd rfl reads
  | rows | number =>
    rw [Action.execute_eq_read name r s (by decide)]
    exact read _

theorem mapM {g : α → Action β} (h : ∀ x, Quiet (g x)) (l : List α) : Quiet (l.mapM g) := by
  induction l with
  | nil => exact pure _
  | cons x rest ih =>
    rw [List.mapM_cons]
    exact (h x).bind fun _ => ih.bind fun _ => pure _

end Quiet

/-! ## Actions that do not fail -/

namespace Sure

theorem pure (x : α) : Sure (Pure.pure x : Action α) := Spec.pure x fun _ _ => rfl

theorem report (e : Event) : Sure (Action.report e) := Spec.report e fun _ _ => rfl

theorem bind (first : Sure a) (next : ∀ x, Sure (f x)) : Sure (a >>= f) :=
  Spec.bind first (fun x => (next x).mono (fun _ _ => trivial) fun _ _ h => h) fun _ _ h => by simp [Except.isOk, Except.toBool] at h

theorem forM {g : α → Action Unit} (h : ∀ x, Sure (g x)) (l : List α) : Sure (l.forM g) := by
  induction l with
  | nil => exact pure _
  | cons x rest ih => exact (h x).bind fun _ => ih

end Sure

/-! ## Atomic actions -/

namespace Atomic

theorem of_quiet (h : Quiet a) : Atomic a := fun db => (h db).mono (fun _ h => h) fun _ _ h _ => h

theorem write (g : Database → Except EngineError (α × Database)) : Atomic (Action.write g) := fun _ =>
  Spec.write (fun _ _ _ _ _ h => by simp [Except.isOk, Except.toBool] at h) fun _ _ h _ _ => h

theorem execute (name : CollectionName) (r : Resolver) {answer : Answer} (s : Statement answer) :
    Atomic (Action.execute name r s) := by
  cases answer with
  | changed => exact write _
  | rows | number => exact of_quiet (.execute name r s (by decide))

theorem transaction (h : Framed a) : Atomic (Action.transaction a) := fun db =>
  have h : Invariant True (fun _ => True) a := h
  have here : Spec True (· = db) a fun _ _ => True := Spec.mono h (fun _ _ => trivial) fun _ _ _ => trivial
  Spec.transaction here (fun _ _ _ h => by simp [Except.isOk, Except.toBool] at h) fun _ _ _ => rfl

theorem bind (first : Quiet a) (next : ∀ x, Atomic (f x)) : Atomic (a >>= f) := fun db =>
  Spec.bind (first db) (fun x => next x db) fun _ _ h _ => h

theorem map (g : α → β) (h : Atomic a) : Atomic (g <$> a) := fun db =>
  Spec.map (h db) g fun r _ h ok => h (by cases r <;> simp_all [Except.map, Except.isOk, Except.toBool])

/-- What follows an atomic action does not make it less so, if it does not fail. -/
theorem then_sure (first : Atomic a) (next : ∀ x, Sure (f x)) : Atomic (a >>= f) := fun db =>
  Spec.bind (first db)
    (fun x => (next x).mono (fun _ _ => trivial) fun _ _ ok failed => by rw [ok] at failed; cases failed)
    fun _ _ h _ => h rfl

end Atomic

end Action

namespace Collection

open Dossier.Action

variable (c : Collection)

/-! ## Reading -/

theorem quiet_find (filter : Json) (listing : Listing) : Quiet (c.find filter listing) :=
  (Quiet.ofRequest _).bind fun _ => (Quiet.execute _ _ _ (by decide)).bind fun _ => .ofStore _

theorem quiet_findOne (filter : Json) : Quiet (c.findOne filter) := (c.quiet_find filter _).bind fun _ => .pure _

theorem quiet_findRaw (p : RawPredicate) (listing : Listing) : Quiet (c.findRaw p listing) :=
  (Quiet.execute _ _ _ (by decide)).bind fun _ => .ofStore _

theorem quiet_count (filter : Json) : Quiet (c.count filter) :=
  (Quiet.ofRequest _).bind fun _ => .execute _ _ _ (by decide)

theorem quiet_prepare (document : Json) : Quiet (prepare document) := by
  refine (Quiet.ofStore _).bind fun split => ?_
  obtain ⟨supplied, body⟩ := split
  cases supplied with
  | some value => exact (Quiet.ofStore _).bind fun _ => .pure _
  | none => exact Quiet.nextId.bind fun _ => .pure _

/-! ## Writing -/

theorem atomic_insert (d : NewDocument) : Atomic (c.insert d) :=
  Atomic.bind .now fun _ => (Atomic.execute _ _ _).then_sure fun _ => .pure _

theorem atomic_insertOne (document : Json) : Atomic (c.insertOne document) :=
  Atomic.bind (quiet_prepare document) fun d => (c.atomic_insert d).then_sure fun _ => .pure _

theorem atomic_insertMany (documents : List Json) : Atomic (c.insertMany documents) :=
  Atomic.bind (.mapM quiet_prepare documents) fun ready =>
    .transaction ((c.plain_insertAll ready).invariant stable_true)

theorem atomic_delete (filter : Json) (cardinality : Cardinality) : Atomic (c.delete filter cardinality) :=
  Atomic.bind (.ofRequest _) fun _ => .execute _ _ _

/-! ## Updating -/

theorem atomic_runUpdate (f : Filter) (u : Update) (cardinality : Cardinality) (insertMissing : Bool) :
    Atomic (c.runUpdate f u cardinality insertMissing) :=
  .transaction ((c.plain_updateSteps f u cardinality insertMissing).invariant stable_true)

theorem atomic_updateOne (filter change : Json) (insertMissing : Bool) :
    Atomic (c.updateOne filter change insertMissing) :=
  Atomic.bind (.ofRequest _) fun _ => Atomic.bind (.ofRequest _) fun _ => c.atomic_runUpdate _ _ _ _

theorem atomic_updateMany (filter change : Json) (insertMissing : Bool) :
    Atomic (c.updateMany filter change insertMissing) := by
  refine Atomic.bind (.ofRequest _) fun _ => Atomic.bind (.ofRequest _) fun u => ?_
  split
  · exact Atomic.bind (.throw _) fun _ => c.atomic_runUpdate _ _ _ _
  · exact c.atomic_runUpdate _ _ _ _

theorem atomic_replaceOne (filter replacement : Json) (insertMissing : Bool) :
    Atomic (c.replaceOne filter replacement insertMissing) := by
  refine Atomic.bind (.ofRequest _) fun _ => Atomic.bind (.ofRequest _) fun u => ?_
  cases u with
  | replace body => exact c.atomic_runUpdate _ _ _ _
  | change changes => exact .of_quiet (.throw _)

/-! ## Changing the schema -/

theorem framed_promotePath (path : FieldPath) (unique : Bool) : Framed (c.promotePath path unique) :=
  .of_yields fun _ => c.yields_promotePath path unique

theorem atomic_promote (path : String) (unique : Bool) : Atomic (c.promote path unique) :=
  Atomic.bind (.ofRequest _) fun path => (Atomic.transaction (c.framed_promotePath path unique)).then_sure fun _ =>
    (Sure.report _).bind fun _ => .pure _

theorem framed_promotePaths (paths : List FieldPath) (unique : Bool) : Framed (c.promotePaths paths unique) := by
  refine (Invariant.mapM (fun p => c.framed_promotePath p unique) paths).bind fun columns => ?_
  split
  · exact (Invariant.alter fun _ _ _ _ => trivial).bind fun _ => .pure _
  · exact .pure _

theorem atomic_promoteCompound (paths : List String) (unique : Bool) : Atomic (c.promoteCompound paths unique) := by
  have rest : ∀ paths : List FieldPath, Atomic (do
      let columns ← Action.transaction (c.promotePaths paths unique)
      columns.forM c.reportPromotion
      return columns) := fun paths =>
    (Atomic.transaction (c.framed_promotePaths paths unique)).then_sure fun columns =>
      (Sure.forM (fun _ => .report _) columns).bind fun _ => .pure _
  rw [promoteCompound_eq]
  refine Atomic.bind (.ofRequest _) fun paths => ?_
  split
  · exact Atomic.bind (.throw _) fun _ => rest paths
  · exact rest paths

theorem framed_installCheck (path : FieldPath) (column expression : String) :
    Framed (c.installCheck path column expression) :=
  c.invariant_installCheck (fun _ _ _ _ _ _ _ _ _ => trivial) (fun _ _ _ => trivial) path column expression

theorem atomic_addCheck (path expression : String) : Atomic (c.addCheck path expression) :=
  Atomic.bind (.ofRequest _) fun path => Atomic.bind (.ofStore _) fun expression => Atomic.bind (.ofRequest _)
    fun column => (Atomic.transaction (c.framed_installCheck path column expression)).then_sure fun _ =>
      (Sure.report _).bind fun _ => .pure _

end Collection

/-- A request to a collection that fails leaves the database as it was. -/
theorem CollectionRequest.atomic_perform (c : Collection) (r : CollectionRequest) : Action.Atomic (r.perform c) := by
  cases r with
  | name => exact .of_quiet (.pure _)
  | insertOne document => exact (c.atomic_insertOne document).map _
  | insertMany documents => exact (c.atomic_insertMany documents).map _
  | find filter listing wanted =>
    exact Action.Atomic.bind (.ofRequest _) fun _ => .of_quiet ((c.quiet_find filter _).bind fun _ => .pure _)
  | findOne filter => exact .of_quiet ((c.quiet_findOne filter).map _)
  | findRaw predicate listing wanted =>
    exact Action.Atomic.bind (.ofRequest _) fun _ => .of_quiet ((c.quiet_findRaw predicate _).bind fun _ => .pure _)
  | count filter => exact .of_quiet ((c.quiet_count filter).map _)
  | update cardinality filter change upsert =>
    cases cardinality with
    | one => exact (c.atomic_updateOne filter change upsert).map _
    | many => exact (c.atomic_updateMany filter change upsert).map _
  | replaceOne filter replacement upsert => exact (c.atomic_replaceOne filter replacement upsert).map _
  | delete cardinality filter => exact (c.atomic_delete filter cardinality).map _
  | promote path unique => exact (c.atomic_promote path unique).map _
  | promoteCompound paths unique => exact (c.atomic_promoteCompound paths unique).map _
  | addCheck path expression => exact (c.atomic_addCheck path expression).map _
  | promotions | checks | schema | columnValues => exact .of_quiet ((Action.Quiet.read _).map _)
  | freeze => exact (Action.Atomic.write _).then_sure fun _ => .pure _
  | putBody id data => exact (Action.Atomic.write _).map _

end Dossier
