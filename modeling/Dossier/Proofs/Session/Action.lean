import Dossier.Session.Transaction

/-!
# Results of actions

`Action.result` is what an action ends with in a workspace and the workspace after it. The lemmas say so for
each way to make an action, so that no proof opens the monad again.
-/

namespace Dossier.Action

variable {α β : Type}

/-- What the action ends with, and the workspace after it. -/
def result (a : Action α) (w : Workspace) : Except StoreError α × Workspace := (ExceptT.run a).run w

section
variable (w : Workspace)

@[simp] theorem result_pure (x : α) : (pure x : Action α).result w = (.ok x, w) := rfl

@[simp] theorem result_throw (e : StoreError) : (throw e : Action α).result w = (.error e, w) := rfl

theorem result_bind (a : Action α) (f : α → Action β) : (a >>= f).result w = match a.result w with
    | (.ok x, w') => (f x).result w'
    | (.error e, w') => (.error e, w') := by
  unfold result ExceptT.run StateT.run
  simp only [bind, ExceptT.bind, ExceptT.mk, StateT.bind, ExceptT.bindCont]
  cases a w with
  | mk r w' => cases r <;> rfl

theorem result_map (f : α → β) (a : Action α) :
    (f <$> a).result w = ((a.result w).1.map f, (a.result w).2) := by
  unfold result ExceptT.run StateT.run
  simp only [Functor.map, ExceptT.map, ExceptT.mk, bind, StateT.bind]
  cases a w with
  | mk r w' => cases r <;> rfl

@[simp] theorem result_attempt (a : Action α) : (attempt a).result w = (.ok (a.result w).1, (a.result w).2) := rfl

@[simp] theorem result_get : (get : Action Workspace).result w = (.ok w, w) := rfl

@[simp] theorem result_set (w' : Workspace) : (set w' : Action Unit).result w = (.ok (), w') := rfl

@[simp] theorem result_modify (f : Workspace → Workspace) : (modify f : Action Unit).result w = (.ok (), f w) := rfl

@[simp] theorem result_report (e : Event) :
    (report e).result w = (.ok (), { w with events := w.events ++ [e] }) := rfl

@[simp] theorem result_nextId : nextId.result w = (.ok w.ids.next.1, { w with ids := w.ids.next.2 }) := rfl

@[simp] theorem result_now : now.result w = (.ok w.clock.now, { w with clock := w.clock.rest }) := rfl

@[simp] theorem result_depth : depth.result w = (.ok w.depth, w) := rfl

/-- A result that does not depend on the workspace. -/
theorem result_ofEngine (r : Except EngineError α) :
    (ofEngine r).result w = (r.mapError StoreError.ofEngine, w) := by
  cases r <;> rfl

theorem result_ofRequest (r : Except CompileError α) :
    (ofRequest r).result w = (r.mapError StoreError.compile, w) := by
  cases r <;> rfl

theorem result_ofChange (r : Except ApplyError α) :
    (ofChange r).result w = (r.mapError StoreError.apply, w) := by
  cases r <;> rfl

theorem result_ofStore (r : Except StoreError α) : (ofStore r).result w = (r, w) := by
  cases r <;> rfl

/-! ## The engine -/

theorem result_connect (f : Connection → Except EngineError Connection) :
    (connect f).result w = match f w.connection with
      | .ok connection => (.ok (), { w with connection })
      | .error e => (.error (.ofEngine e), w) := by
  rw [connect, result_bind]
  simp only [result_get, result_bind, result_ofEngine]
  cases f w.connection <;> rfl

theorem result_read (f : Database → Except EngineError α) :
    (read f).result w = ((f w.connection.read.1).mapError StoreError.ofEngine,
      { w with connection := w.connection.read.2 }) := by
  rw [read, result_bind]
  simp only [result_get, result_bind, result_set, result_ofEngine]

theorem result_write (f : Database → Except EngineError (α × Database)) :
    (write f).result w = match w.connection.write f with
      | .ok (a, connection) => (.ok a, { w with connection })
      | .error e => (.error (.ofEngine e), w) := by
  rw [write, result_bind]
  simp only [result_get, result_bind, result_ofEngine]
  cases w.connection.write f <;> rfl

end

/-- A statement that answers rows or a number reads. -/
theorem execute_eq_read (name : CollectionName) (r : Resolver) {answer : Answer} (s : Statement answer)
    (reads : answer ≠ .changed) : execute name r s = read fun db => (db.run name r s).map (·.1) := by
  cases answer with
  | changed => exact absurd rfl reads
  | rows | number => rfl

/-! ## Levels -/

/-- A step in a level of its own. -/
theorem run_scope (step : StateM Workspace (α × Option StoreError)) (w : Workspace) :
    (scope step).run w = match begin.result w with
      | (.error e, v) => ((none, some e), v)
      | (.ok (), v) => match step.run v with
        | ((a, some e), u) => ((some a, some e), ((unwindTo (v.depth - 1) e u.depth).result u).2)
        | ((a, none), u) => match (commitTo (v.depth - 1) u.depth).result u with
          | (.ok (), t) => ((some a, none), t)
          | (.error e, t) => ((some a, some e), ((unwindTo (v.depth - 1) e t.depth).result t).2) := by
  unfold scope result ExceptT.run StateT.run
  simp only [bind, StateT.bind, pure]
  cases begin w with
  | mk r v =>
    cases r with
    | error e => rfl
    | ok _ =>
      cases hs : step v with
      | mk p u =>
        obtain ⟨a, failure⟩ := p
        cases failure with
        | some e =>
          simp only [hs, get, getThe, MonadStateOf.get, StateT.get, pure, bind, StateT.bind]
          rfl
        | none =>
          simp only [hs, get, getThe, MonadStateOf.get, StateT.get, pure, bind, StateT.bind]
          cases commitTo (v.depth - 1) u.depth u with
          | mk r t => cases r <;> rfl

/-- An action as a step of a level: what it made, and whether it failed. -/
def outcome (a : Action α) : StateM Workspace (Option α × Option StoreError) := do
  match ← ExceptT.run a with
  | .ok x => return (some x, none)
  | .error e => return (none, some e)

theorem run_outcome (a : Action α) (w : Workspace) : (outcome a).run w = match a.result w with
    | (.ok x, v) => ((some x, none), v)
    | (.error e, v) => ((none, some e), v) := by
  unfold outcome result ExceptT.run StateT.run
  simp only [bind, StateT.bind]
  cases a w with
  | mk r v => cases r <;> rfl

theorem transaction_eq (a : Action α) : transaction a = ExceptT.lift (scope (outcome a)) >>= fun r => match r with
    | (some (some x), none) => pure x
    | (_, some e) => throw e
    | _ => throw .closed := rfl

/-- An action in a level of its own. -/
theorem result_transaction (a : Action α) (w : Workspace) : (transaction a).result w = match begin.result w with
    | (.error e, v) => (.error e, v)
    | (.ok (), v) => match a.result v with
      | (.error e, u) => (.error e, ((unwindTo (v.depth - 1) e u.depth).result u).2)
      | (.ok x, u) => match (commitTo (v.depth - 1) u.depth).result u with
        | (.ok (), t) => (.ok x, t)
        | (.error e, t) => (.error e, ((unwindTo (v.depth - 1) e t.depth).result t).2) := by
  have lifted : ∀ m : StateM Workspace (Option (Option α) × Option StoreError),
      result (ExceptT.lift m) w = (Except.ok (m.run w).1, (m.run w).2) := fun m => rfl
  rw [transaction_eq, result_bind, lifted, run_scope]
  cases begin.result w with
  | mk r v =>
    cases r with
    | error e => rfl
    | ok _ =>
      simp only [run_outcome]
      cases a.result v with
      | mk r u =>
        cases r with
        | error e => rfl
        | ok x =>
          simp only
          cases (commitTo (v.depth - 1) u.depth).result u with
          | mk r t => cases r <;> rfl

end Dossier.Action
