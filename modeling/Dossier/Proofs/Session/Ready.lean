import Dossier.Proofs.Database.Twins
import Dossier.Proofs.Session.Run
import Dossier.Proofs.Session.Script
import Dossier.Proofs.Session.Still

/-!
# Ready workspaces

A workspace is ready when its levels agree with the engine, no other connection holds the lock, and the connection
remembers only tables that exist (`Workspace.Ready`). What a script does in such a workspace depends on nothing but the
current contents, the identifiers and the clock (`Action.Script.exists_effect`): not on the levels that are open, nor on
what the connection remembers.
-/

namespace Dossier

open Workspace

namespace Workspace

/-- The connection remembers no table that does not exist. -/
def Honest (w : Workspace) : Prop :=
  ∀ names, w.connection.handle.known = some names → ∀ n ∈ names, n ∈ w.current.tableNames

/-- The levels agree with the engine, which accepts to open one, and the connection remembers only what there is. -/
structure Ready (w : Workspace) : Prop where
  orderly : w.Orderly
  unlocked : w.Unlocked
  honest : w.Honest

variable {v w : Workspace}

/-- A connection that has just looked is honest. -/
theorem honest_of_known (known : w.connection.handle.known = some w.current.tableNames) : w.Honest := by
  intro names eq n mem
  obtain rfl := Option.some.inj (known.symm.trans eq)
  exact mem

theorem Honest.of_eq (handle : v.connection.handle = w.connection.handle) (current : v.current = w.current)
    (h : w.Honest) : v.Honest := by
  unfold Honest
  rw [handle, current]
  exact h

/-- A table that an honest connection knows exists. -/
theorem Honest.isSome_table? (h : w.Honest) {name : String} (knows : w.connection.handle.knows w.current name = true) :
    (w.current.table? name).isSome := by
  unfold Handle.knows at knows
  obtain ⟨n, mem, same⟩ := List.any_eq_true.1 knows
  have there : n ∈ w.current.tableNames := by
    cases known : w.connection.handle.known with
    | none => simpa [known] using mem
    | some names => exact h names known n (by simpa [known] using mem)
  obtain ⟨t, tables, rfl⟩ := List.mem_map.1 there
  exact List.find?_isSome.2 ⟨t, tables, Text.sameName_symm same⟩

/-- Contents with one schema have the same tables. -/
theorem tableNames_of_schema {since now : Database} (h : since.schema = now.schema) :
    since.tableNames = now.tableNames := by
  have tables := congrArg (List.map Prod.fst) (congrArg Prod.fst h)
  simpa [Database.schema, Database.tableNames, Function.comp_def] using tables

/-- What an honest connection remembers after going back is there. -/
theorem Honest.goBack (h : w.Honest)
    (handle : v.connection.handle = w.connection.handle.goBack w.current v.current) : v.Honest := by
  intro names known n mem
  rw [handle] at known
  unfold Handle.goBack at known
  split at known
  · rename_i same
    rw [← tableNames_of_schema same]
    exact h names known n mem
  · cases known

end Workspace

namespace Action

variable {α β : Type} {v w : Workspace}

/-! ## What a connection remembers -/

theorem known_read (orderly : w.Orderly) (f : Database → Except EngineError α) :
    ((read f).result w).2.connection.handle.known = some ((read f).result w).2.current.tableNames := by
  rw [(read_kept orderly f).2.2, result_read]
  unfold Workspace.Orderly at orderly
  unfold Connection.read current
  cases t : w.connection.transaction with
  | none => rfl
  | some t' =>
    simp only [t] at orderly
    obtain ⟨n, pinned⟩ := Option.isSome_iff_exists.1 orderly.pinned
    simp [Connection.pin, pinned, Handle.look]

theorem known_write {f : Database → Except EngineError (α × Database)} {x : α} (ok : ((write f).result w).1 = .ok x) :
    ((write f).result w).2.connection.handle.known = some ((write f).result w).2.current.tableNames := by
  rw [result_write] at ok ⊢
  cases made : w.connection.write f with
  | error e => rw [made] at ok; cases ok
  | ok p =>
    unfold Connection.write at made
    cases t : w.connection.transaction with
    | none =>
      simp only [t] at made
      split at made
      · cases made
      · obtain ⟨q, -, eq⟩ := Outcome.bind_eq_ok.1 made
        cases eq
        rfl
    | some t' =>
      simp only [t] at made
      split at made
      · obtain ⟨q, -, eq⟩ := Outcome.bind_eq_ok.1 made
        cases eq
        rfl
      · cases made

theorem handle_begin (w : Workspace) : (begin.result w).2.connection.handle = w.connection.handle := by
  have opened : ∀ c, w.connection.begin = .ok c → c.handle = w.connection.handle := by
    intro c begun
    unfold Connection.begin at begun
    split at begun
    · cases begun
    · split at begun <;> cases begun
      rfl
  have saved : ∀ level, (w.connection.savepoint level).handle = w.connection.handle := by
    intro level
    unfold Connection.savepoint
    split <;> rfl
  rw [begin, result_bind, result_depth]
  simp only
  split
  · rw [result_bind, result_connect]
    cases begun : w.connection.begin with
    | error e => rfl
    | ok c => exact opened c begun
  · rw [result_bind, result_connect]
    exact saved w.depth

theorem handle_commit (hv : v.Orderly) (below : v.base = w.opened) :
    (commit.result v).2.connection.handle = v.connection.handle := by
  obtain ⟨t, tv, ht, eq⟩ := transaction_of_opened hv below
  cases tw : w.connection.transaction with
  | none =>
    simp only [opened, tw, Option.some.injEq, Prod.mk.injEq] at eq
    rw [commit_outermost tv ht eq.2.1]
    simp [Connection.close, ht.writes]
  | some u =>
    simp only [opened, tw, Option.some.injEq, Prod.mk.injEq] at eq
    rw [commit_inner tv ht eq.2.1]

theorem handle_rollback (hv : v.Orderly) (below : v.base = w.opened) :
    (rollback.result v).2.connection.handle = v.connection.handle.goBack v.current w.current := by
  obtain ⟨t, tv, ht, eq⟩ := transaction_of_opened hv below
  cases tw : w.connection.transaction with
  | none =>
    simp only [opened, tw, Option.some.injEq, Prod.mk.injEq] at eq
    rw [rollback_outermost tv ht eq.2.1]
    simp [Connection.abandon, ht.writes, current, tv, tw, eq.2.2]
  | some u =>
    simp only [opened, tw, Option.some.injEq, Prod.mk.injEq] at eq
    rw [rollback_inner tv ht eq.2.1]
    simp [current, tv, tw]

end Action

namespace Workspace

/-! ## Levels -/

variable {v w : Workspace}

/-- A level opens on a ready workspace, which stays ready. -/
theorem Ready.exists_begun (ready : w.Ready) : ∃ v : Workspace, Action.begin.result w = (.ok (), v) ∧ v.Ready
    ∧ v.base = w.opened ∧ v.current = w.current := by
  obtain ⟨v, begun, orderly, below, current⟩ := Action.exists_begun ready.orderly ready.unlocked
  have handle := Action.handle_begin w
  rw [begun] at handle
  exact ⟨v, begun, ⟨orderly, unlocked_of_base (below ▸ opened_isSome w), ready.honest.of_eq handle current⟩, below, current⟩

/-- The workspace is ready after a commit of a level. -/
theorem Ready.commit (orderly : w.Orderly) (ready : v.Ready) (below : v.base = w.opened) :
    (Action.commit.result v).2.Ready :=
  have ⟨_, ordered, _, current⟩ := Action.commit_opened orderly ready.orderly below
  ⟨ordered, Action.unlocked_commit orderly ready.orderly below,
    ready.honest.of_eq (Action.handle_commit ready.orderly below) current⟩

/-- The workspace is ready after a rollback of a level. -/
theorem Ready.rollback (orderly : w.Orderly) (ready : v.Ready) (below : v.base = w.opened) :
    (Action.rollback.result v).2.Ready := by
  obtain ⟨-, ordered, -, current⟩ := Action.rollback_opened orderly ready.orderly below
  refine ⟨ordered, Action.unlocked_rollback orderly ready.orderly below, ready.honest.goBack ?_⟩
  rw [current]
  exact Action.handle_rollback ready.orderly below

end Workspace

/-! ## What a script does -/

namespace Action

variable {α β : Type} {a : Action α} {f : α → Action β} {w : Workspace}

/-- What an action does apart from the levels: what it ends with, and the contents, the identifiers and the clock after it. -/
structure Effect (α : Type) where
  answer : Except StoreError α
  contents : Database
  ids : IdSource
  clock : Clock

namespace Effect

/-- What comes after an action that succeeds. -/
def next (e : Effect α) (after : α → Database → IdSource → Clock → Effect β) : Effect β :=
  match e.answer with
  | .ok x => after x e.contents e.ids e.clock
  | .error failure => ⟨.error failure, e.contents, e.ids, e.clock⟩

theorem next_ok {e : Effect α} {x : α} (h : e.answer = .ok x) (after : α → Database → IdSource → Clock → Effect β) :
    e.next after = after x e.contents e.ids e.clock := by
  unfold next
  rw [h]

theorem next_error {e : Effect α} {failure : StoreError} (h : e.answer = .error failure)
    (after : α → Database → IdSource → Clock → Effect β) : e.next after = ⟨.error failure, e.contents, e.ids, e.clock⟩ := by
  unfold next
  rw [h]

/-- What a statement makes of the contents. -/
def ofWrite (f : Database → Except EngineError (α × Database)) (db : Database) (ids : IdSource) (clock : Clock) :
    Effect α :=
  match f db with
  | .ok (x, after) => ⟨.ok x, after, ids, clock⟩
  | .error e => ⟨.error (.ofEngine e), db, ids, clock⟩

/-- The contents stay as they were before an action that fails. -/
def undone (e : Effect α) (before : Database) : Effect α :=
  { e with contents := if e.answer.isOk then e.contents else before }

end Effect

/-- In the workspace the action does what `effect` tells, and leaves the levels as they are. -/
structure Does (a : Action α) (w : Workspace) (effect : Effect α) : Prop where
  answer : (a.result w).1 = effect.answer
  contents : (a.result w).2.current = effect.contents
  ids : (a.result w).2.ids = effect.ids
  clock : (a.result w).2.clock = effect.clock
  base : (a.result w).2.base = w.base
  ready : (a.result w).2.Ready

/-- Actions with one result do the same. -/
theorem Does.congr {b : Action α} {effect : Effect α} (h : b.Does w effect) (same : a.result w = b.result w) :
    a.Does w effect := by
  constructor <;> rw [same]
  exacts [h.answer, h.contents, h.ids, h.clock, h.base, h.ready]

/-- In every ready workspace, what the action does is told by the contents, the identifiers and the clock. -/
def Told (a : Action α) : Prop :=
  ∃ effect : Database → IdSource → Clock → Effect α, ∀ w : Workspace, w.Ready → a.Does w (effect w.current w.ids w.clock)

theorem read_current (orderly : w.Orderly) : w.connection.read.1 = w.current := by
  have answer := (read_spec orderly Except.ok).1
  rw [result_read] at answer
  exact Except.ok.inj answer

/-- To make sure of a table is to make it, or no more than a look where it exists. -/
theorem ensureTable_of_ready (ready : w.Ready) (name : CollectionName) :
    ((w.current.table? name.text).isSome ∧ w.connection.ensureTable name = .ok w.connection.read.2)
      ∨ w.connection.ensureTable name = (w.connection.write fun db => do return ((), ← db.createTable name)).map (·.2) := by
  unfold Connection.ensureTable
  simp only [read_current ready.orderly]
  by_cases knows : w.connection.handle.knows w.current name.text = true
  · exact .inl ⟨ready.honest.isSome_table? knows, by rw [if_pos knows]⟩
  · rw [if_neg knows]
    by_cases idle : ((w.current.table? name.text).isSome && w.connection.isIdle) = true
    · obtain ⟨there, idle'⟩ := Bool.and_eq_true_iff.1 idle
      have free : w.connection.isLocked = false := by
        simp [Connection.isLocked, ready.unlocked (Option.isNone_iff_eq_none.1 idle')]
      exact .inl ⟨there, by rw [if_pos idle, free]; rfl⟩
    · rw [if_neg idle]
      right
      cases w.connection.write fun db => do return ((), ← db.createTable name) <;> rfl

theorem does_read (ready : w.Ready) (g : Database → Except EngineError α) :
    (read g).Does w ⟨(g w.current).mapError .ofEngine, w.current, w.ids, w.clock⟩ := by
  obtain ⟨answer, kept, current⟩ := read_kept ready.orderly g
  exact ⟨answer, current, (Still.read g w).1, (Still.read g w).2, kept.base, kept.orderly, kept.unlocked ready.unlocked, honest_of_known (known_read ready.orderly g)⟩

theorem does_write (ready : w.Ready) (g : Database → Except EngineError (α × Database)) :
    (write g).Does w (.ofWrite g w.current w.ids w.clock) := by
  have still := Still.write g w
  unfold Effect.ofWrite
  rcases write_unlocked ready.orderly ready.unlocked g with ⟨e, failed, same⟩ | ⟨x, db, made, ok, kept, current⟩
  · rw [failed]
    constructor <;> rw [same]
    exact ready
  · rw [made]
    exact ⟨ok, current, still.1, still.2, kept.base, kept.orderly, kept.unlocked ready.unlocked,
      honest_of_known (known_write ok)⟩

namespace Told

theorem pure (x : α) : Told (Pure.pure x : Action α) :=
  ⟨fun db ids clock => ⟨.ok x, db, ids, clock⟩, fun _ ready => ⟨rfl, rfl, rfl, rfl, rfl, ready⟩⟩

theorem throw (e : StoreError) : Told (MonadExcept.throw e : Action α) :=
  ⟨fun db ids clock => ⟨.error e, db, ids, clock⟩, fun _ ready => ⟨rfl, rfl, rfl, rfl, rfl, ready⟩⟩

theorem report (e : Event) : Told (Action.report e) :=
  ⟨fun db ids clock => ⟨.ok (), db, ids, clock⟩, fun _ ready =>
    ⟨rfl, rfl, rfl, rfl, rfl, ready.orderly, ready.unlocked, ready.honest⟩⟩

theorem nextId : Told Action.nextId :=
  ⟨fun db ids clock => ⟨.ok ids.next.1, db, ids.next.2, clock⟩, fun _ ready =>
    ⟨rfl, rfl, rfl, rfl, rfl, ready.orderly, ready.unlocked, ready.honest⟩⟩

theorem now : Told Action.now :=
  ⟨fun db ids clock => ⟨.ok clock.now, db, ids, clock.rest⟩, fun _ ready =>
    ⟨rfl, rfl, rfl, rfl, rfl, ready.orderly, ready.unlocked, ready.honest⟩⟩

theorem bind (first : Told a) (next : ∀ x, Told (f x)) : Told (a >>= f) := by
  obtain ⟨before, does⟩ := first
  choose after does' using next
  refine ⟨fun db ids clock => (before db ids clock).next after, fun w ready => ?_⟩
  obtain ⟨answer, contents, ids, clock, base, ready'⟩ := does w ready
  show (a >>= f).Does w ((before w.current w.ids w.clock).next after)
  cases ran : a.result w with
  | mk r v =>
    rw [ran] at answer contents ids clock base ready'
    have through := result_bind w a f
    rw [ran] at through
    cases r with
    | error e =>
      rw [Effect.next_error answer.symm]
      constructor <;> rw [through]
      exacts [contents, ids, clock, base, ready']
    | ok x =>
      have later := does' x v ready'
      rw [contents, ids, clock] at later
      rw [Effect.next_ok answer.symm]
      constructor <;> rw [through]
      exacts [later.answer, later.contents, later.ids, later.clock, later.base.trans base, later.ready]

theorem attempt (h : Told a) : Told (Action.attempt a) := by
  obtain ⟨effect, does⟩ := h
  refine ⟨fun db ids clock => ⟨.ok (effect db ids clock).answer, (effect db ids clock).contents, (effect db ids clock).ids,
    (effect db ids clock).clock⟩, fun w ready => ?_⟩
  obtain ⟨answer, contents, ids, clock, base, ready'⟩ := does w ready
  constructor <;> rw [result_attempt]
  · rw [answer]
  all_goals assumption

theorem read (g : Database → Except EngineError α) : Told (Action.read g) :=
  ⟨fun db ids clock => ⟨(g db).mapError .ofEngine, db, ids, clock⟩, fun _ ready => does_read ready g⟩

theorem write (g : Database → Except EngineError (α × Database)) : Told (Action.write g) :=
  ⟨.ofWrite g, fun _ ready => does_write ready g⟩

/-- Whatever an honest connection remembers, the table is there afterwards, made if it was missing. -/
theorem ensureTable (name : CollectionName) : Told (connect fun c => c.ensureTable name) := by
  refine ⟨.ofWrite fun db => do return ((), ← db.createTable name), fun w ready => ?_⟩
  rcases ensureTable_of_ready ready name with ⟨there, looked⟩ | wrote
  · obtain ⟨t, found⟩ := Option.isSome_iff_exists.1 there
    have same : (connect fun c => c.ensureTable name).result w = (Action.read fun _ => .ok ()).result w := by
      rw [result_connect, looked, result_read]
      rfl
    have unchanged : (Effect.ofWrite (fun db => do return ((), ← db.createTable name)) w.current w.ids w.clock)
        = ⟨.ok (), w.current, w.ids, w.clock⟩ := by
      unfold Effect.ofWrite
      simp [Database.createTable_of_table? found]
    rw [unchanged]
    exact (does_read ready fun _ => .ok ()).congr same
  · have same : (connect fun c => c.ensureTable name).result w
        = (Action.write fun db => do return ((), ← db.createTable name)).result w := by
      rw [result_connect, wrote, result_write]
      cases w.connection.write fun db => do return ((), ← db.createTable name) <;> rfl
    exact (does_write ready _).congr same

/-- A level of its own keeps what the action did, or undoes it. -/
theorem transaction (h : Told a) : Told (Action.transaction a) := by
  obtain ⟨effect, does⟩ := h
  refine ⟨fun db ids clock => (effect db ids clock).undone db, fun w ready => ?_⟩
  obtain ⟨v, begun, ready', below, current⟩ := ready.exists_begun
  have opens := Still.begin w
  rw [begun] at opens
  obtain ⟨answer, contents, ids, clock, base, ready''⟩ := does v ready'
  have ran := result_transaction_of_begun ready.orderly begun ready'.orderly below a ready''.orderly base
  rw [current, opens.1, opens.2] at answer contents ids clock
  have under := base.trans below
  cases made : (a.result v).1 with
  | error e =>
    obtain ⟨-, -, bottom, seen⟩ := rollback_opened ready.orderly ready''.orderly under
    have still := Still.rollback (a.result v).2
    rw [made] at ran answer
    constructor <;> rw [ran]
    · exact answer
    · simpa [Effect.undone, ← answer, Except.isOk, Except.toBool] using seen
    · exact still.1.trans ids
    · exact still.2.trans clock
    · exact bottom
    · exact ready''.rollback ready.orderly under
  | ok x =>
    obtain ⟨-, -, bottom, seen⟩ := commit_opened ready.orderly ready''.orderly under
    have still := Still.commit (a.result v).2
    rw [made] at ran answer
    constructor <;> rw [ran]
    · exact answer
    · simpa [Effect.undone, ← answer, Except.isOk, Except.toBool] using seen.trans contents
    · exact still.1.trans ids
    · exact still.2.trans clock
    · exact bottom
    · exact ready''.commit ready.orderly under

end Told

/-- What a script does in a ready workspace is told by the contents, the identifiers and the clock. -/
theorem Script.told (h : Script a) : Told a := by
  induction h with
  | pure x => exact .pure x
  | throw e => exact .throw e
  | bind _ _ first next => exact first.bind next
  | attempt _ ih => exact ih.attempt
  | report e => exact .report e
  | nextId => exact .nextId
  | now => exact .now
  | read g => exact .read g
  | write _ => exact .write _
  | ensureTable name => exact .ensureTable name
  | transaction _ ih => exact ih.transaction

end Action

end Dossier
