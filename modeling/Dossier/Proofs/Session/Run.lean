import Dossier.Proofs.Outcome
import Dossier.Proofs.Session.Atomic

/-!
# What runs of a session keep

`Workspace.Good P`: the workspace is orderly, and `P` holds of the current database and of all that a rollback
could bring back. Whatever keeps `P` of the current database keeps the workspace good (`Action.Invariant.good`), and
so do opening, committing and rolling back levels; `Request.good_run` puts this together for every request that
makes no call of the engine itself.
-/

namespace Dossier

variable (P : Database → Prop)

namespace Workspace

/-- `P` holds of all that lies below a database. -/
def Below (base : Option (Option Nat × List (Nat × Database) × Database)) : Prop :=
  ∀ b ∈ base, P b.2.2 ∧ ∀ s ∈ b.2.1, P s.2

/-- An orderly workspace, and `P` holds of every database in it. -/
structure Good (w : Workspace) : Prop where
  orderly : w.Orderly
  current : P w.current
  below : Below P w.base

variable {P} {v w : Workspace}

theorem Same.good (same : Same v w) (h : w.Good P) : v.Good P :=
  ⟨same.orderly h.orderly, same.current ▸ h.current, same.base ▸ h.below⟩

/-- Another level opens over a good workspace. -/
theorem Good.below_opened (h : w.Good P) : Below P w.opened := by
  have below := h.below
  have current := h.current
  unfold Workspace.current at current
  unfold opened
  unfold base at below
  cases t : w.connection.transaction with
  | none =>
    rw [t] at current
    rintro b ⟨⟩
    exact ⟨current, by simp⟩
  | some t =>
    simp only [t, Below, Option.map_some] at current below ⊢
    obtain ⟨contents, saved⟩ := below _ rfl
    rintro b ⟨⟩
    exact ⟨contents, List.forall_mem_cons.2 ⟨current, saved⟩⟩

/-- A good workspace with an open level is one with a level opened on a good workspace. -/
theorem Good.exists_opened (h : v.Good P) (open_ : 0 < v.depth) :
    ∃ w : Workspace, w.Good P ∧ v.base = w.opened := by
  have orderly := h.orderly
  have below := h.below
  unfold Orderly at orderly
  unfold base at below
  cases tv : v.connection.transaction with
  | none =>
    simp only [tv] at orderly
    omega
  | some t =>
    simp only [tv, Below, Option.map_some] at orderly below
    obtain ⟨contents, saved⟩ := below _ rfl
    obtain ⟨n, pinned⟩ := Option.isSome_iff_exists.1 orderly.pinned
    cases levels : t.saved with
    | nil =>
      refine ⟨{ v with
          connection := ⟨{ v.connection.file with commits := n }, v.connection.handle, none⟩
          depth := 0 }, ⟨rfl, contents, by simp [Below, base]⟩, ?_⟩
      simp [base, opened, tv, pinned, levels]
    | cons s rest =>
      obtain ⟨level, db⟩ := s
      have numbers := orderly.levels_eq
      simp only [levels, List.map_cons, List.length_cons, Dossier.levels, List.cons.injEq] at numbers
      rw [levels] at saved
      obtain ⟨here, others⟩ := List.forall_mem_cons.1 saved
      refine ⟨{ v with
          connection := { v.connection with transaction := some { t with view := db, saved := rest } }
          depth := level }, ⟨⟨?_, numbers.2, orderly.writes, orderly.opened, orderly.pinned⟩, here, ?_⟩, ?_⟩
      · exact numbers.1
      · rintro b ⟨⟩
        exact ⟨contents, others⟩
      · simp [base, opened, tv, levels]

theorem Good.of_opened (hw : w.Good P) (orderly : v.Orderly) (current : P v.current) (base : v.base = w.base) :
    v.Good P := ⟨orderly, current, base ▸ hw.below⟩

end Workspace

namespace Action

open Workspace

variable {P} {α : Type} {a : Action α} {v w : Workspace}

/-- What keeps `P` of the current database keeps the workspace good. -/
theorem Invariant.good (h : Invariant False P a) (good : w.Good P) : (a.result w).2.Good P :=
  have ⟨orderly, base, current⟩ := h w good.orderly False.elim good.current
  good.of_opened orderly current base

/-! ## Levels -/

theorem good_begin (h : w.Good P) : (begin.result w).2.Good P := by
  rcases begin_spec h.orderly with ⟨e, eq, -⟩ | ⟨-, orderly, base, current⟩
  · rw [eq]; exact h
  · exact ⟨orderly, current ▸ h.current, base ▸ h.below_opened⟩

theorem good_commit (h : v.Good P) : (commit.result v).2.Good P := by
  by_cases closed : v.depth = 0
  · rw [commit, result_bind, result_depth, closed]
    exact h
  · obtain ⟨w, good, base⟩ := h.exists_opened (Nat.pos_of_ne_zero closed)
    obtain ⟨-, orderly, bottom, current⟩ := commit_opened good.orderly h.orderly base
    exact good.of_opened orderly (current ▸ h.current) bottom

theorem good_rollback (h : v.Good P) : (rollback.result v).2.Good P := by
  by_cases closed : v.depth = 0
  · rw [rollback, result_bind, result_get]
    simp only [closed]
    exact h
  · obtain ⟨w, good, base⟩ := h.exists_opened (Nat.pos_of_ne_zero closed)
    obtain ⟨-, orderly, bottom, current⟩ := rollback_opened good.orderly h.orderly base
    exact good.of_opened orderly (current ▸ good.current) bottom

theorem good_commitTo (level fuel : Nat) (h : v.Good P) : ((commitTo level fuel).result v).2.Good P := by
  induction fuel generalizing v with
  | zero => exact h
  | succ fuel ih =>
    rw [commitTo, result_bind, result_depth]
    simp only
    split
    · rw [result_bind]
      have closed := good_commit h
      cases ran : commit.result v with
      | mk r u =>
        rw [ran] at closed
        cases r with
        | error e => exact closed
        | ok _ => exact ih closed
    · exact h

theorem good_unwindTo (level : Nat) (cause : StoreError) (fuel : Nat) (h : v.Good P) :
    ((unwindTo level cause fuel).result v).2.Good P := by
  induction fuel generalizing v with
  | zero => exact h
  | succ fuel ih =>
    rw [unwindTo, result_bind, result_depth]
    simp only
    split
    · rw [result_bind, result_attempt]
      have closed := good_rollback h
      cases ran : rollback.result v with
      | mk r u =>
        rw [ran] at closed
        cases r with
        | error e =>
          have told : { u with events := u.events ++ [Event.rollbackFailed cause] }.Good P :=
            Same.good (w := u) ⟨rfl, rfl, rfl⟩ closed
          simp only [result_bind, result_report]
          exact ih told
        | ok _ => exact ih closed
    · exact h

theorem good_scope {step : StateM Workspace (α × Option StoreError)}
    (steps : ∀ v : Workspace, v.Good P → (step.run v).2.Good P) (h : w.Good P) : ((scope step).run w).2.Good P := by
  rw [run_scope]
  have opens := good_begin h
  cases begun : begin.result w with
  | mk r v =>
    rw [begun] at opens
    cases r with
    | error e => exact opens
    | ok _ =>
      simp only
      have stepped := steps v opens
      cases ran : step.run v with
      | mk p u =>
        rw [ran] at stepped
        obtain ⟨x, failure⟩ := p
        cases failure with
        | some e => exact good_unwindTo _ _ _ stepped
        | none =>
          simp only
          have committed := good_commitTo (v.depth - 1) u.depth stepped
          cases closed : (commitTo (v.depth - 1) u.depth).result u with
          | mk r t =>
            rw [closed] at committed
            cases r with
            | error e => exact good_unwindTo _ _ _ committed
            | ok _ => exact committed

/-- A session that ends leaves the contents of the file as they are. -/
theorem good_finish (h : w.Good P) : (finish.result w).2.Good P := by
  have orderly := h.orderly
  have current := h.current
  have below := h.below
  unfold Orderly at orderly
  unfold Workspace.current at current
  unfold base at below
  have closed : ∀ v : Workspace, v.connection.transaction = none → v.depth = 0 → P v.connection.file.contents →
      v.Good P := by
    intro v idle depth contents
    exact ⟨by simp [Orderly, idle, depth], by simpa [Workspace.current, idle], by simp [Below, base, idle]⟩
  rw [finish, result_bind, result_depth]
  simp only [result_bind, result_modify]
  cases t : w.connection.transaction with
  | none =>
    simp only [t] at orderly current
    simp only [orderly, Nat.lt_irrefl, if_false, result_pure, Connection.reset, t]
    exact closed _ t rfl current
  | some t =>
    simp only [t, Below, Option.map_some] at orderly below
    obtain ⟨contents, -⟩ := below _ rfl
    have positive : 0 < w.depth := by have := orderly.depth_eq; omega
    simp only [positive, if_true, result_bind, result_report, closeLevels, result_modify, Connection.reset, t,
      Connection.abandon, orderly.writes]
    exact closed _ rfl rfl contents

/-! ## Opening a collection -/

/-- Making sure of a table looks at the database, fails, or makes the table. -/
theorem ensureTable_cases (c : Connection) (name : CollectionName) :
    c.ensureTable name = .ok c.read.2 ∨ c.ensureTable name = .error Connection.locked
      ∨ c.ensureTable name = (c.write fun db => do return ((), ← db.createTable name)).map (·.2) := by
  unfold Connection.ensureTable
  simp only
  split
  · exact .inl rfl
  · split
    · split
      · exact .inr (.inl rfl)
      · exact .inl rfl
    · exact .inr (.inr rfl)

theorem Invariant.ensureTable {inside : Prop} (name : CollectionName)
    (made : ∀ db after, P db → db.createTable name = .ok after → P after) :
    Invariant inside P (connect fun c => c.ensureTable name) := by
  intro w orderly within start
  rw [result_connect]
  rcases ensureTable_cases w.connection name with looked | locked | wrote
  · have look := (read_spec orderly fun _ : Database => Except.ok ()).2
    rw [result_read] at look
    rw [looked]
    exact ⟨look.orderly orderly, look.base, by rw [look.current]; exact start⟩
  · rw [locked]
    exact ⟨orderly, rfl, start⟩
  · have written := write_spec orderly fun db => do return ((), ← db.createTable name)
    rw [result_write] at written
    rw [wrote]
    cases ran : w.connection.write fun db => do return ((), ← db.createTable name) with
    | error e => exact ⟨orderly, rfl, start⟩
    | ok p =>
      rw [ran] at written
      rcases written with ⟨e, eq, -⟩ | ⟨x, db, eq, -, orderly', base, current⟩
      · cases eq
      · obtain ⟨after, created, same⟩ := Outcome.bind_eq_ok.1 eq
        cases same
        have done := made _ _ start created
        rw [← current] at done
        exact ⟨orderly', base, done⟩

end Action

/-! ## Requests -/

namespace Request

mutual
/-- The request makes no call of the engine itself, and its requests to collections are as `ok` says. -/
def Within (ok : CollectionRequest → Prop) : Request → Prop
  | within _ request | held _ request => ok request
  | engineBegin | engineRollback => False
  | transaction requests _ _ => AllWithin ok requests
  | _ => True

/-- All requests are as `Within` says. -/
def AllWithin (ok : CollectionRequest → Prop) : List Request → Prop
  | [] => True
  | request :: rest => Within ok request ∧ AllWithin ok rest
end

mutual
/-- The request makes no call of the engine itself, and its requests to collections, by their names, are as `ok` says. -/
def Confined (ok : String → CollectionRequest → Prop) : Request → Prop
  | within name request => ok name request
  | held collection request => ok collection.name.text request
  | engineBegin | engineRollback => False
  | transaction requests _ _ => AllConfined ok requests
  | _ => True

/-- All requests are as `Confined` says. -/
def AllConfined (ok : String → CollectionRequest → Prop) : List Request → Prop
  | [] => True
  | request :: rest => Confined ok request ∧ AllConfined ok rest
end

variable {ok : CollectionRequest → Prop}

mutual
theorem Within.confined {r : Request} (h : r.Within ok) : r.Confined fun _ => ok := by
  cases r with
  | within _ request | held _ request => exact h
  | engineBegin | engineRollback => exact h
  | transaction requests _ _ => exact AllWithin.allConfined h
  | _ => trivial

theorem AllWithin.allConfined {requests : List Request} (h : AllWithin ok requests) : AllConfined (fun _ => ok) requests := by
  cases requests with
  | nil => trivial
  | cons request rest => exact ⟨Within.confined h.1, AllWithin.allConfined h.2⟩
end

end Request

/-- A property of databases that holds of the empty one and that the requests to collections of a kind keep. -/
structure Kept (ok : CollectionRequest → Prop) : Prop where
  empty : P .empty
  version : ∀ db version, P db → P { db with version }
  opening : ∀ name, Action.Invariant False P (Collection.openNamed name)
  perform : ∀ (c : Collection) request, ok request → Action.Invariant False P (request.perform c)

/-- The same, where the kind may depend on the name of the collection. -/
structure KeptIn (ok : String → CollectionRequest → Prop) : Prop where
  empty : P .empty
  version : ∀ db version, P db → P { db with version }
  run : ∀ name request, ok name request → Action.Invariant False P (request.run name)
  perform : ∀ (c : Collection) request, ok c.name.text request → Action.Invariant False P (request.perform c)

variable {P}

namespace Kept

variable {Q : Database → Prop} {ok ok' : CollectionRequest → Prop}

theorem keptIn (h : Kept P ok) : KeptIn P fun _ => ok where
  empty := h.empty
  version := h.version
  run name request within := (h.opening name).bind fun c => h.perform c request within
  perform c request within := h.perform c request within

/-- What requests keep, fewer requests keep. -/
theorem mono (h : Kept P ok) (fewer : ∀ r, ok' r → ok r) : Kept P ok' where
  empty := h.empty
  version := h.version
  opening := h.opening
  perform c request within := h.perform c request (fewer request within)

theorem and (h : Kept P ok) (h' : Kept Q ok) : Kept (fun db => P db ∧ Q db) ok where
  empty := ⟨h.empty, h'.empty⟩
  version db version start := ⟨h.version db version start.1, h'.version db version start.2⟩
  opening name := (h.opening name).and (h'.opening name)
  perform c request within := (h.perform c request within).and (h'.perform c request within)

end Kept

variable {α : Type} {w : Workspace}

theorem Reply.run_ofAction_eq (a : Action α) (reply : α → Workspace → Reply) (w : Workspace) :
    (ofAction a reply).run w = match a.result w with
      | (.ok x, v) => (reply x v, v)
      | (.error e, v) => (.failed e, v) := by
  unfold ofAction Action.result ExceptT.run StateT.run
  simp only [bind, StateT.bind]
  cases a w with
  | mk r v => cases r <;> rfl

theorem Reply.run_ofAction (a : Action α) (reply : α → Workspace → Reply) (w : Workspace) :
    ((ofAction a reply).run w).2 = (a.result w).2 := by
  rw [run_ofAction_eq]
  cases a.result w with
  | mk r v => cases r <;> rfl

namespace Request

open Workspace Dossier.Action

variable {ok : String → CollectionRequest → Prop}

/-- Calls one after another end where the first one ends, if it stops them, else where the others do. -/
theorem runAll_cons_cases (keepGoing : Bool) (r : Request) (rest : List Request) (w : Workspace) :
    ((runAll keepGoing (r :: rest)).run w).2 = (r.run.run w).2
      ∨ ((runAll keepGoing (r :: rest)).run w).2 = ((runAll keepGoing rest).run (r.run.run w).2).2 := by
  rw [runAll, StateT.run_bind]
  simp only [bind]
  split
  · exact .inl rfl
  · exact .inr rfl

mutual
/-- A request keeps a workspace good. -/
theorem good_run (kept : KeptIn P ok) (r : Request) (within : r.Confined ok) {w : Workspace} (h : w.Good P) :
    (r.run.run w).2.Good P := by
  cases r with
  | within collection request =>
    rw [run, Reply.run_ofAction]
    exact (kept.run collection request within).good h
  | held collection request =>
    rw [run, Reply.run_ofAction]
    exact (kept.perform collection request within).good h
  | begin => rw [run, Reply.ofStep, Reply.run_ofAction]; exact good_begin h
  | commit => rw [run, Reply.ofStep, Reply.run_ofAction]; exact good_commit h
  | rollback => rw [run, Reply.ofStep, Reply.run_ofAction]; exact good_rollback h
  | depth => rw [run, Reply.ofStep, Reply.run_ofAction]; exact h
  | engineBegin | engineRollback => exact within.elim
  | setVersion version =>
    rw [run, Reply.ofStep, Reply.run_ofAction]
    refine Invariant.good (Invariant.alter fun db after start eq => ?_) h
    cases eq
    exact kept.version db version start
  | transaction requests failure keepGoing =>
    have steps : ∀ v : Workspace, v.Good P → ((do
        let (replies, stopped) ← runAll keepGoing requests
        return (replies, ending stopped failure) : StateM Workspace _).run v).2.Good P := fun v hv =>
      good_runAll kept requests within keepGoing hv
    rw [run]
    exact good_scope steps h

theorem good_runAll (kept : KeptIn P ok) (requests : List Request) (within : AllConfined ok requests)
    (keepGoing : Bool) {w : Workspace} (h : w.Good P) : ((runAll keepGoing requests).run w).2.Good P := by
  match requests with
  | [] => rw [runAll]; exact h
  | r :: rest =>
    have first := good_run kept r within.1 h
    rcases runAll_cons_cases keepGoing r rest w with stopped | went
    · rw [stopped]; exact first
    · rw [went]; exact good_runAll kept rest within.2 keepGoing first
end

theorem good_runBlock (kept : KeptIn P ok) {requests : List Request} (within : AllConfined ok requests)
    (failure : Option String) (keepGoing : Bool) (h : w.Good P) :
    ((runBlock requests failure keepGoing).run w).2.Good P := good_runAll kept requests within keepGoing h

end Request

end Dossier
