import Dossier.Proofs.Session.Ready

/-!
# Levels as a stack of snapshots

A session behaves as a machine with the current contents and a stack of saved ones (`Snapshots`): opening a level pushes a
copy, a commit drops the top, a rollback goes back to it. Requests to collections see and change the current contents
alone: they do what they do in a session without open levels on these contents (`Snapshots.alone`). The engine keeps all
that in one transaction and in savepoints with numbers; `Workspace.snapshots` reads the machine's state from it, and
`Workspace.Ready.refines` compares whole runs.
-/

namespace Dossier

open Workspace

/-! ## The machine -/

/-- The current contents and those that are saved, the last ones first, with the identifiers and the clock. -/
structure Snapshots where
  contents : Database
  saved : List Database
  ids : IdSource
  clock : Clock

/-- What a session is asked for: to open, commit or roll back a level, or a request to a collection, also to one that has been
opened at another level. -/
inductive Snapshots.Move
  | begin
  | commit
  | rollback
  | within (collection : String) (request : CollectionRequest)
  | held (collection : Collection) (request : CollectionRequest)

/-- The request to the session. -/
def Snapshots.Move.request : Move → Request
  | begin => .begin
  | commit => .commit
  | rollback => .rollback
  | within collection request => .within collection request
  | held collection request => .held collection request

namespace Snapshots

/-- A session without open levels on the current contents, with a connection that has not looked yet. -/
def alone (m : Snapshots) : Workspace := ⟨⟨⟨m.contents, 0, none⟩, ⟨0, none⟩, none⟩, 0, 0, m.ids, [], m.clock⟩

/-- Lets such a session answer a request to a collection. -/
def answer (m : Snapshots) (request : Request) : Reply × Snapshots :=
  let (reply, w) := request.run.run m.alone
  (reply, { m with contents := w.current, ids := w.ids, clock := w.clock })

/-- Makes a move, and replies as a session does. -/
def step (m : Snapshots) : Move → Reply × Snapshots
  | .begin => (.depth (m.saved.length + 1), { m with saved := m.contents :: m.saved })
  | .commit =>
    match m.saved with
    | [] => (.failed (.transactionState .commit), m)
    | _ :: outer => (.depth outer.length, { m with saved := outer })
  | .rollback =>
    match m.saved with
    | [] => (.failed (.transactionState .rollback), m)
    | contents :: outer => (.depth outer.length, { m with contents, saved := outer })
  | .within collection request => m.answer (.within collection request)
  | .held collection request => m.answer (.held collection request)

/-- Makes moves one after another. -/
def run (m : Snapshots) : List Move → List Reply × Snapshots
  | [] => ([], m)
  | move :: rest =>
    let (reply, m) := m.step move
    let (replies, m) := m.run rest
    (reply :: replies, m)

/-- The end of the session: the bottom of the stack comes back. -/
def dropped (m : Snapshots) : Snapshots := { m with contents := m.saved.getLast?.getD m.contents, saved := [] }

end Snapshots

/-! ## Snapshots of a workspace -/

namespace Workspace

/-- The contents that the open levels would go back to, the innermost first. -/
def saved (w : Workspace) : List Database := w.base.elim [] fun b => b.2.1.map (·.2) ++ [b.2.2]

/-- The state of the machine. -/
def snapshots (w : Workspace) : Snapshots := ⟨w.current, w.saved, w.ids, w.clock⟩

variable {v w : Workspace}

theorem saved_of_base (h : v.base = w.base) : v.saved = w.saved := by rw [saved, h, saved]

/-- Another level saves the current contents. -/
theorem saved_opened (w : Workspace) :
    (w.opened.elim [] fun b => b.2.1.map (·.2) ++ [b.2.2]) = w.current :: w.saved := by
  unfold saved opened current base
  cases w.connection.transaction <;> rfl

theorem saved_of_opened (h : v.base = w.opened) : v.saved = w.current :: w.saved := by
  rw [saved, h, saved_opened]

theorem Orderly.depth_eq_saved (h : w.Orderly) : w.depth = w.saved.length := by
  unfold Orderly at h
  unfold saved base
  cases t : w.connection.transaction with
  | none => simpa [t] using h
  | some t' =>
    simp only [t] at h
    simp [h.depth_eq]

theorem Orderly.depth_eq_of_base (h : v.Orderly) (base : v.base = w.base) : v.depth = w.saved.length := by
  rw [h.depth_eq_saved, saved_of_base base]

theorem snapshots_congr {m : Snapshots} (current : v.current = m.contents) (saved : v.saved = m.saved)
    (ids : v.ids = m.ids) (clock : v.clock = m.clock) : v.snapshots = m := by
  unfold snapshots
  rw [current, saved, ids, clock]

/-- Below an open level is a workspace that it was opened on. -/
theorem Orderly.exists_opened (h : v.Orderly) (open_ : 0 < v.depth) : ∃ w : Workspace, w.Orderly ∧ v.base = w.opened := by
  have good : v.Good fun _ => True := ⟨h, trivial, fun _ _ => ⟨trivial, fun _ _ => trivial⟩⟩
  obtain ⟨w, below, base⟩ := good.exists_opened open_
  exact ⟨w, below.orderly, base⟩

/-- The top of the stack is what the innermost level was opened on. -/
theorem Orderly.exists_opened_of_saved (h : v.Orderly) {db : Database} {outer : List Database}
    (top : v.saved = db :: outer) : ∃ w : Workspace, w.Orderly ∧ v.base = w.opened ∧ w.current = db ∧ w.saved = outer := by
  obtain ⟨w, orderly, base⟩ := h.exists_opened (by rw [h.depth_eq_saved, top]; exact Nat.succ_pos _)
  have both := (saved_of_opened base).symm.trans top
  exact ⟨w, orderly, base, (List.cons.inj both).1, (List.cons.inj both).2⟩

theorem ready_alone (m : Snapshots) : m.alone.Ready := by
  refine ⟨rfl, fun _ => rfl, fun _ known => ?_⟩
  cases known

/-- A session on a new connection is ready, if no connection holds the lock. -/
theorem ready_of_connect {file : File} (free : file.writer = none) (number active : Nat) (ids : IdSource)
    (events : List Event) (clock : Clock) : Ready ⟨⟨file, file.connect number, none⟩, 0, active, ids, events, clock⟩ :=
  ⟨rfl, fun _ => free, honest_of_known rfl⟩

end Workspace

/-! ## One move -/

namespace Action

variable {α : Type} {v w : Workspace}

theorem commit_of_depth_eq_zero (h : w.depth = 0) : commit.result w = (.error (.transactionState .commit), w) := by
  rw [commit, result_bind, result_depth, h]
  rfl

theorem rollback_of_depth_eq_zero (h : w.depth = 0) : rollback.result w = (.error (.transactionState .rollback), w) := by
  rw [rollback, result_bind, result_get]
  simp only [h]
  rfl

end Action

namespace Workspace

open Snapshots

variable {w : Workspace}

/-- A request to a collection does the same at every level, and leaves the stack as it is. -/
theorem Ready.step_answer (ready : w.Ready) {request : Request} {a : Action CollectionReply} (script : Action.Script a)
    (runs : request.run = Reply.ofAction a fun r _ => .within r) : (request.run.run w).1 = (w.snapshots.answer request).1
      ∧ (request.run.run w).2.snapshots = (w.snapshots.answer request).2 ∧ (request.run.run w).2.Ready := by
  obtain ⟨effect, does⟩ := script.told
  have here := does w ready
  have there := does w.snapshots.alone (ready_alone _)
  have stack := saved_of_base here.base
  have answers := here.answer.trans there.answer.symm
  have contents := here.contents.trans there.contents.symm
  have ids := here.ids.trans there.ids.symm
  have clock := here.clock.trans there.clock.symm
  have ready' := here.ready
  unfold Snapshots.answer
  simp only [runs, Reply.run_ofAction_eq]
  cases ran : a.result w with
  | mk r v =>
    cases ran' : a.result w.snapshots.alone with
    | mk r' v' =>
      rw [ran] at answers contents ids stack clock ready'
      rw [ran'] at answers contents ids clock
      obtain rfl : r = r' := answers
      cases r <;> exact ⟨rfl, snapshots_congr contents stack ids clock, ready'⟩

/-- A commit drops the top of the stack. -/
theorem Ready.step_commit (ready : w.Ready) : (Request.commit.run.run w).1 = (w.snapshots.step .commit).1
    ∧ (Request.commit.run.run w).2.snapshots = (w.snapshots.step .commit).2 ∧ (Request.commit.run.run w).2.Ready := by
  have height := ready.orderly.depth_eq_saved
  have stack : w.snapshots.saved = w.saved := rfl
  rw [Request.run, Reply.ofStep, Reply.run_ofAction_eq, Snapshots.step, stack]
  cases top : w.saved with
  | nil =>
    rw [top] at height
    rw [Action.commit_of_depth_eq_zero height]
    exact ⟨rfl, rfl, ready⟩
  | cons db outer =>
    obtain ⟨below, orderly, base, -, rfl⟩ := ready.orderly.exists_opened_of_saved top
    obtain ⟨ok, ordered, bottom, current⟩ := Action.commit_opened orderly ready.orderly base
    have still := Action.Still.commit w
    have ready' := ready.commit orderly base
    cases ran : Action.commit.result w with
    | mk r v =>
      rw [ran] at ok ordered bottom current still ready'
      obtain rfl : r = .ok () := ok
      exact ⟨congrArg Reply.depth (ordered.depth_eq_of_base bottom),
        snapshots_congr current (saved_of_base bottom) still.1 still.2, ready'⟩

/-- A rollback goes back to the top of the stack. -/
theorem Ready.step_rollback (ready : w.Ready) : (Request.rollback.run.run w).1 = (w.snapshots.step .rollback).1
    ∧ (Request.rollback.run.run w).2.snapshots = (w.snapshots.step .rollback).2
    ∧ (Request.rollback.run.run w).2.Ready := by
  have height := ready.orderly.depth_eq_saved
  have stack : w.snapshots.saved = w.saved := rfl
  rw [Request.run, Reply.ofStep, Reply.run_ofAction_eq, Snapshots.step, stack]
  cases top : w.saved with
  | nil =>
    rw [top] at height
    rw [Action.rollback_of_depth_eq_zero height]
    exact ⟨rfl, rfl, ready⟩
  | cons db outer =>
    obtain ⟨below, orderly, base, rfl, rfl⟩ := ready.orderly.exists_opened_of_saved top
    obtain ⟨ok, ordered, bottom, current⟩ := Action.rollback_opened orderly ready.orderly base
    have still := Action.Still.rollback w
    have ready' := ready.rollback orderly base
    cases ran : Action.rollback.result w with
    | mk r v =>
      rw [ran] at ok ordered bottom current still ready'
      obtain rfl : r = .ok () := ok
      exact ⟨congrArg Reply.depth (ordered.depth_eq_of_base bottom),
        snapshots_congr current (saved_of_base bottom) still.1 still.2, ready'⟩

/-- A move in a ready workspace is one of the machine, and leaves the workspace ready. -/
theorem Ready.step (ready : w.Ready) (move : Move) : (move.request.run.run w).1 = (w.snapshots.step move).1
    ∧ (move.request.run.run w).2.snapshots = (w.snapshots.step move).2 ∧ (move.request.run.run w).2.Ready := by
  cases move with
  | commit => exact ready.step_commit
  | rollback => exact ready.step_rollback
  | within collection request => exact ready.step_answer (request.script_run collection) (by rw [Move.request, Request.run])
  | held collection request => exact ready.step_answer (request.script_perform collection) (by rw [Move.request, Request.run])
  | begin =>
    obtain ⟨v, begun, ready', below, current⟩ := ready.exists_begun
    have still := Action.Still.begin w
    rw [begun] at still
    have stack := saved_of_opened below
    rw [Move.request, Request.run, Reply.ofStep, Reply.run_ofAction_eq, begun]
    refine ⟨?_, snapshots_congr current stack still.1 still.2, ready'⟩
    simp only [Snapshots.step, ready'.orderly.depth_eq_saved, stack, List.length_cons, snapshots]

/-! ## Runs -/

theorem runAll_cons (r : Request) (rest : List Request) (w : Workspace) : (Request.runAll true (r :: rest)).run w
    = (((r.run.run w).1 :: ((Request.runAll true rest).run (r.run.run w).2).1.1,
        ((Request.runAll true rest).run (r.run.run w).2).1.2), ((Request.runAll true rest).run (r.run.run w).2).2) := by
  rw [Request.runAll, StateT.run_bind]
  cases r.run.run w with
  | mk reply v =>
    simp only [bind, pure]
    cases reply.failure? <;> rfl

theorem Ready.run (ready : w.Ready) (moves : List Move) :
    ((Request.runAll true (moves.map Move.request)).run w).1 = ((w.snapshots.run moves).1, none)
      ∧ ((Request.runAll true (moves.map Move.request)).run w).2.snapshots = (w.snapshots.run moves).2
      ∧ ((Request.runAll true (moves.map Move.request)).run w).2.Ready := by
  induction moves generalizing w with
  | nil => exact ⟨rfl, rfl, ready⟩
  | cons move rest ih =>
    obtain ⟨reply, state, ready'⟩ := ready.step move
    obtain ⟨replies, last, ready''⟩ := ih ready'
    rw [List.map_cons, runAll_cons, Snapshots.run]
    rw [state] at replies last
    refine ⟨?_, last, ready''⟩
    rw [replies, reply]

/-- A document with an identifier and nothing else. -/
def named (id : String) : Json := .object [("_id", .string id)]

/-- Inserts a document into the collection `log`, which is opened for it. -/
def insertion (id : String) : Move := .within "log" (.insertOne (named id))

/-- A handle of the collection `log`, without promoted paths. -/
def logHandle : Collection := ⟨⟨"log", by decide⟩, ⟨[]⟩⟩

/-- A session on a new file. -/
def atStart : Workspace :=
  ⟨⟨.empty, File.empty.connect 0, none⟩, 0, 0, .start fun _ => "", [], .still 0⟩

/-- The identifiers of the documents in the collection `log`. -/
def identifiers (m : Snapshots) : Option (List String) := (m.contents.table? "log").map fun t => t.rows.map Row.id

end Workspace

end Dossier
