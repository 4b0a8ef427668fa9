import Dossier.Proofs.Database.Twins
import Dossier.Proofs.Session.Promotion
import Dossier.Proofs.Session.Still

/-!
# Opening and promoting between transactions

What opening a collection (`Collection.exists_opened`) and promoting a path (`Collection.promote_kept`) do in a session
without an open transaction, when no other connection holds the lock.
-/

namespace Dossier

open Workspace Dossier.Action Outcome

/-- The connection remembers the collection's table only if there is one. -/
def Workspace.Aware (name : CollectionName) (w : Workspace) : Prop :=
  (w.current.table? name.text).isSome ∨ w.connection.handle.knows w.current name.text = false

theorem CollectionName.text_of_parse {collection : String} {name : CollectionName}
    (parsed : CollectionName.parse collection = .ok name) : name.text = collection := by
  unfold CollectionName.parse at parsed
  repeat' split at parsed
  all_goals cases parsed
  rfl

namespace Collection

variable {w v : Workspace} {collection : String} {name : CollectionName} {db : Database}

/-- The table of the collection is made where it is missing. -/
theorem ensureTable_kept (orderly : w.Orderly) (unlocked : w.Unlocked) (idle : w.base = none) (aware : w.Aware name)
    (made : w.current.createTable name = .ok db) : ∃ v, (connect fun c => c.ensureTable name).result w = (.ok (), v)
      ∧ Kept v w ∧ v.ids = w.ids ∧ v.clock = w.clock ∧ v.current = db := by
  have closed : w.connection.transaction = none := by simpa [Workspace.base] using idle
  have seen : w.current = w.connection.file.contents := by simp [Workspace.current, closed]
  have free : w.connection.isLocked = false := by simp [Connection.isLocked, unlocked closed]
  have still := Still.connect (fun c => c.ensureTable name) w
  rw [result_connect] at still ⊢
  have read : w.connection.read = (w.current, { w.connection with handle := w.connection.handle.look w.current }) := by
    simp [Connection.read, closed, seen]
  cases found : w.current.table? name.text with
  | some t =>
    obtain rfl := Except.ok.inj ((Database.createTable_of_table? found).symm.trans made)
    have ensured : w.connection.ensureTable name
        = .ok { w.connection with handle := w.connection.handle.look w.current } := by
      unfold Connection.ensureTable
      simp [read, found, Connection.isIdle, closed, free]
    rw [ensured]
    exact ⟨_, rfl, ⟨orderly, rfl, fun unlocked => unlocked⟩, rfl, rfl, rfl⟩
  | none =>
    have unaware : w.connection.handle.knows w.current name.text = false := by
      simpa [Aware, found] using aware
    have ensured : w.connection.ensureTable name = .ok { w.connection with
        file := { w.connection.file with contents := db, commits := w.connection.file.commits + 1 }
        handle := w.connection.handle.look db } := by
      unfold Connection.ensureTable
      simp [read, unaware, found, Connection.write, closed, free, ← seen, made]
    rw [ensured]
    refine ⟨_, rfl, ⟨?_, ?_, fun unlocked => unlocked⟩, rfl, rfl, ?_⟩
    · simpa [Orderly, closed] using orderly
    · simp [Workspace.base, closed]
    · simp [Workspace.current, closed]

/-- A collection opens with the table made and the promoted paths read. -/
theorem exists_opened (parsed : CollectionName.parse collection = .ok name) (orderly : w.Orderly) (unlocked : w.Unlocked)
    (idle : w.base = none) (aware : w.Aware name) (made : w.current.createTable name = .ok db) :
    ∃ v, (openNamed collection).result w = (.ok ⟨name, db.resolver name.text⟩, v) ∧ Kept v w ∧ v.ids = w.ids
      ∧ v.clock = w.clock ∧ v.current = db := by
  obtain ⟨u, ensured, kept, ids, clock, seen⟩ := ensureTable_kept orderly unlocked idle aware made
  obtain ⟨answer, kept', seen'⟩ := read_kept kept.orderly fun db => .ok (db.resolver name.text)
  have still := Still.read (fun db => .ok (db.resolver name.text)) u
  rw [seen] at answer seen'
  refine ⟨_, ?_, kept'.trans kept, still.1.trans ids, still.2.trans clock, seen'⟩
  unfold openNamed
  rw [parsed, result_bind, result_ofRequest]
  simp only [Except.mapError]
  rw [result_bind, ensured]
  simp only
  rw [result_bind, show (Action.read fun db => .ok (db.resolver name.text)).result u
    = (.ok (db.resolver name.text), _) from Prod.ext answer rfl]
  rfl

/-- A name that cannot be read opens nothing. -/
theorem result_openNamed_of_error {e : CompileError} (refused : CollectionName.parse collection = .error e) :
    (openNamed collection).result w = (.error (.compile e), w) := by
  unfold openNamed
  rw [refused, result_bind, result_ofRequest]
  rfl

/-! ## Promotions -/

theorem nameless_fillColumn (c : Collection) (path : FieldPath) (column : String) : Nameless (c.fillColumn path column) := by
  refine (Still.alter _).nameless.transaction.attempt.bind fun outcome => ?_
  cases outcome with
  | ok _ => exact (Still.pure _).nameless
  | error e => exact (Still.report _).nameless

theorem nameless_installColumn (c : Collection) (path : FieldPath) (column : String) (unique : Bool) :
    Nameless (c.installColumn path column unique) :=
  (Still.alter _).nameless.bind fun _ => (c.nameless_fillColumn path column).bind fun _ =>
    (Still.alter _).nameless.bind fun _ => Nameless.now.bind fun _ =>
      ((Still.alter _).bind fun _ => (Still.read _).bind fun _ => .pure _).nameless

theorem nameless_placeColumn (c : Collection) (path : FieldPath) (column : String) (unique : Bool) :
    Nameless (c.placeColumn path column unique) := by
  refine (Still.read _).nameless.bind fun present => ?_
  split
  · exact (Still.alter _).nameless.bind fun _ => c.nameless_installColumn path column unique
  · exact c.nameless_installColumn path column unique

theorem nameless_promotePath (c : Collection) (path : FieldPath) (unique : Bool) : Nameless (c.promotePath path unique) := by
  refine (Still.ofRequest _).nameless.bind fun column => (Still.read _).nameless.bind fun taken => ?_
  have placed := c.nameless_placeColumn path column unique
  split
  · split
    · exact (Still.throw _).nameless.bind fun _ => placed
    · exact placed
  · exact placed

/-- A promotion that succeeds changes the database as it says. -/
theorem promote_kept {c : Collection} {path : String} {unique : Bool} {p : PromotedColumn} (orderly : w.Orderly)
    (unlocked : w.Unlocked) (made : (c.promote path unique).result w = (.ok p, v)) : Kept v w ∧ v.ids = w.ids
      ∧ ∃ parsed time, w.current.Admits c.name parsed ∧ w.current.promote c.name parsed unique time = .ok v.current := by
  unfold promote at made
  rw [result_bind, result_ofRequest] at made
  cases parsed : FieldPath.parse path with
  | error e => rw [parsed] at made; cases made
  | ok target =>
    rw [parsed] at made
    simp only [Except.mapError] at made
    obtain ⟨u, ordered, below, current, ids, -, ran⟩ := exists_level (α := PromotedColumn) orderly unlocked
    have inside : u.base.isSome := below ▸ opened_isSome w
    obtain ⟨framed, base, done⟩ := c.yields_promotePath target unique u ordered (fun _ => inside) rfl
    have nameless := c.nameless_promotePath target unique u
    obtain ⟨t, eq, ordered', bottom, unlocked', given, -, seen⟩ := ran _ framed base
    rw [result_bind, eq] at made
    cases result : ((c.promotePath target unique).result u).1 with
    | error e => rw [result] at made; cases made
    | ok column =>
      rw [result] at made seen
      cases made
      obtain ⟨admits, time, promoted, -⟩ := done _ result
      refine ⟨⟨ordered', bottom, fun _ => unlocked'⟩, given.trans (nameless.trans ids), target, time, current ▸ admits, ?_⟩
      · have after : t.current = ((c.promotePath target unique).result u).2.current := seen
        exact (current ▸ promoted).trans (congrArg Except.ok after.symm)

end Collection

end Dossier
