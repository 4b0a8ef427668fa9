import Dossier.Proofs.Session.Run
import Dossier.Proofs.Session.Script

/-!
# Counting sessions with an open level

The store counts the sessions that have a level open. A session adds itself to the count when it opens its outermost level
and takes itself off when it closes that, whichever way this happens: `Workspace.Counted n` says that the count is `n`, for
the other sessions, and one more if the session has a level open. Every action keeps that, in every state of the engine.
-/

namespace Dossier

namespace Workspace

/-- The count of sessions with an open level is that of `n` others, and of this one if it has a level open. -/
def Counted (n : Nat) (w : Workspace) : Prop := w.active = n + if 0 < w.depth then 1 else 0

variable {n : Nat} {v w : Workspace}

theorem counted_closed (h : w.depth = 0) : w.Counted n ↔ w.active = n := by simp [Counted, h]

theorem counted_open (h : 0 < w.depth) : w.Counted n ↔ w.active = n + 1 := by simp [Counted, h]

theorem Counted.of_eq (h : w.Counted n) (depth : v.depth = w.depth) (active : v.active = w.active) : v.Counted n := by
  unfold Counted
  rw [depth, active]
  exact h

end Workspace

namespace Action

open Workspace

variable {α β : Type} {a : Action α} {f : α → Action β} {n : Nat} {w : Workspace}

/-- The action keeps the count of sessions. -/
def Counting (a : Action α) : Prop := ∀ n (w : Workspace), w.Counted n → (a.result w).2.Counted n

/-- The action leaves the levels and the count alone. -/
def Uncounted (a : Action α) : Prop := ∀ w, (a.result w).2.depth = w.depth ∧ (a.result w).2.active = w.active

theorem Uncounted.counting (h : Uncounted a) : Counting a := fun _ w counted => counted.of_eq (h w).1 (h w).2

theorem Uncounted.connect (g : Connection → Except EngineError Connection) : Uncounted (Action.connect g) := by
  intro w
  rw [result_connect]
  cases g w.connection <;> exact ⟨rfl, rfl⟩

theorem Uncounted.read (g : Database → Except EngineError α) : Uncounted (Action.read g) := fun w => by
  rw [result_read]
  exact ⟨rfl, rfl⟩

theorem Uncounted.write (g : Database → Except EngineError (α × Database)) : Uncounted (Action.write g) := by
  intro w
  rw [result_write]
  cases w.connection.write g <;> exact ⟨rfl, rfl⟩

namespace Counting

theorem pure (x : α) : Counting (Pure.pure x : Action α) := fun _ _ h => h

theorem throw (e : StoreError) : Counting (MonadExcept.throw e : Action α) := fun _ _ h => h

theorem bind (first : Counting a) (next : ∀ x, Counting (f x)) : Counting (a >>= f) := by
  intro n w counted
  have here := first n w counted
  rw [result_bind]
  cases made : a.result w with
  | mk r v =>
    rw [made] at here
    cases r with
    | error e => exact here
    | ok x => exact next x n v here

theorem attempt (h : Counting a) : Counting (Action.attempt a) := fun n w counted => by
  rw [result_attempt]
  exact h n w counted

theorem of_depth : Counting Action.depth := fun _ _ h => h

/-! ## Levels -/

theorem closeLevels : Counting Action.closeLevels := by
  intro n w counted
  rw [Action.closeLevels, result_modify]
  split
  · rename_i open_
    rw [counted_open open_] at counted
    rw [counted_closed rfl]
    show w.active - 1 = n
    omega
  · exact counted

/-- The outermost level is counted when it opens, and only then. -/
theorem begin : Counting Action.begin := by
  intro n w counted
  rw [Action.begin, result_bind, result_depth]
  simp only
  split
  · rename_i closed
    rw [counted_closed closed] at counted
    rw [result_bind, result_connect]
    cases w.connection.begin with
    | error e => rwa [counted_closed closed]
    | ok c =>
      rw [counted_open Nat.one_pos]
      exact congrArg (· + 1) counted
  · rename_i inner
    rw [counted_open (Nat.pos_of_ne_zero inner)] at counted
    exact (counted_open (Nat.succ_pos _)).2 counted

theorem commit : Counting Action.commit := by
  intro n w counted
  rw [Action.commit, result_bind, result_depth]
  simp only
  split
  · exact counted
  · exact (Uncounted.connect _).counting.bind (fun _ => closeLevels) n w counted
  · rename_i level more
    rw [result_bind, result_connect]
    cases w.connection.release (level + 1) with
    | error e => exact counted
    | ok c =>
      rw [counted_open (by omega)] at counted
      exact (counted_open (Nat.succ_pos _)).2 counted

/-- A savepoint that cannot be rolled back closes the transaction, which is counted off once. -/
theorem rollbackSavepoint {level : Nat} (inner : 0 < level) (counted : w.Counted n) (open_ : 0 < w.depth) :
    ((Action.rollbackSavepoint level).result w).2.Counted n := by
  have undone := Uncounted.connect (fun c => do (← c.rollbackTo level).release level) w
  rw [Action.rollbackSavepoint, result_bind, result_attempt]
  cases ran : (connect fun c => do (← c.rollbackTo level).release level).result w with
  | mk r v =>
    rw [ran] at undone
    obtain ⟨depth, active⟩ : v.depth = w.depth ∧ v.active = w.active := undone
    rw [counted_open open_] at counted
    cases r with
    | ok _ => exact (counted_open inner).2 (active.trans counted)
    | error e =>
      have reset : { v with connection := v.connection.reset }.Counted n :=
        (counted_open (depth ▸ open_)).2 (active.trans counted)
      simp only [result_bind, result_modify]
      exact closeLevels.bind (fun _ => throw e) n _ reset

theorem rollback : Counting Action.rollback := by
  intro n w counted
  rw [Action.rollback, result_bind, result_get]
  simp only
  split
  · exact counted
  · split
    · exact closeLevels n w counted
    · split
      · exact (Uncounted.connect _).counting.bind (fun _ => closeLevels) n w counted
      · rename_i inner
        exact rollbackSavepoint (Nat.pos_of_ne_zero inner) counted (by omega)

theorem commitTo (level fuel : Nat) : Counting (Action.commitTo level fuel) := by
  induction fuel with
  | zero => exact pure _
  | succ fuel ih =>
    intro n w counted
    rw [Action.commitTo, result_bind, result_depth]
    simp only
    split
    · exact commit.bind (fun _ => ih) n w counted
    · exact counted

theorem report (e : Event) : Counting (Action.report e) := fun _ _ h => h

theorem unwindTo (level : Nat) (cause : StoreError) (fuel : Nat) : Counting (Action.unwindTo level cause fuel) := by
  induction fuel with
  | zero => exact pure _
  | succ fuel ih =>
    intro n w counted
    rw [Action.unwindTo, result_bind, result_depth]
    simp only
    split
    · refine rollback.attempt.bind (fun outcome => ?_) n w counted
      cases outcome with
      | ok _ => exact ih
      | error e => exact (report _).bind fun _ => ih
    · exact counted

/-- A step in a level of its own keeps the count if the step does. -/
theorem scope {step : StateM Workspace (α × Option StoreError)}
    (steps : ∀ n (v : Workspace), v.Counted n → (step.run v).2.Counted n) (counted : w.Counted n) :
    ((Action.scope step).run w).2.Counted n := by
  rw [run_scope]
  have opens := begin n w counted
  cases begun : Action.begin.result w with
  | mk r v =>
    rw [begun] at opens
    cases r with
    | error e => exact opens
    | ok _ =>
      simp only
      have stepped := steps n v opens
      cases ran : step.run v with
      | mk p u =>
        rw [ran] at stepped
        obtain ⟨x, failure⟩ := p
        cases failure with
        | some e => exact unwindTo _ _ _ n u stepped
        | none =>
          simp only
          have committed := commitTo (v.depth - 1) u.depth n u stepped
          cases closed : (Action.commitTo (v.depth - 1) u.depth).result u with
          | mk r t =>
            rw [closed] at committed
            cases r with
            | error e => exact unwindTo _ _ _ n t committed
            | ok _ => exact committed

theorem transaction (h : Counting a) : Counting (Action.transaction a) := by
  intro n w counted
  have steps : ∀ n (v : Workspace), v.Counted n → ((outcome a).run v).2.Counted n := by
    intro n v hv
    have ran := h n v hv
    rw [run_outcome]
    cases made : a.result v with
    | mk r u =>
      rw [made] at ran
      cases r <;> exact ran
  have framed := scope steps counted
  rw [transaction_eq, result_bind]
  have lifted : result (ExceptT.lift (Action.scope (outcome a))) w
      = (.ok ((Action.scope (outcome a)).run w).1, ((Action.scope (outcome a)).run w).2) := rfl
  rw [lifted]
  simp only
  split <;> exact framed

theorem finish : Counting Action.finish := by
  intro n w counted
  rw [Action.finish, result_bind, result_depth]
  simp only [result_bind, result_modify]
  have reset : { w with connection := w.connection.reset }.Counted n := counted.of_eq rfl rfl
  split
  · exact (report _).bind (fun _ => closeLevels) n _ reset
  · exact reset

end Counting

/-- At the end of a session no level of it is open. -/
theorem depth_finish (w : Workspace) : (finish.result w).2.depth = 0 := by
  rw [finish, result_bind, result_depth]
  simp only [result_bind, result_modify]
  split
  · rename_i open_
    simp [result_bind, closeLevels, open_]
  · rename_i closed
    exact Nat.eq_zero_of_not_pos closed

theorem Script.counting (h : Script a) : Counting a := by
  induction h with
  | pure x => exact .pure x
  | throw e => exact .throw e
  | bind _ _ first next => exact first.bind next
  | attempt _ ih => exact ih.attempt
  | report e => exact .report e
  | nextId => exact fun _ _ h => h
  | now => exact fun _ _ h => h
  | read g => exact (Uncounted.read g).counting
  | write _ => exact (Uncounted.write _).counting
  | ensureTable name => exact (Uncounted.connect _).counting
  | transaction _ ih => exact ih.transaction

end Action

namespace Request

open Workspace Dossier.Action

variable {n : Nat} {w : Workspace}

theorem counted_ofAction {α : Type} {a : Action α} (h : Counting a) (reply : α → Workspace → Reply)
    (counted : w.Counted n) : ((Reply.ofAction a reply).run w).2.Counted n := by
  rw [Reply.run_ofAction]
  exact h n w counted

mutual
/-- A request keeps the count, engine calls included. -/
theorem counted_run (r : Request) {n : Nat} {w : Workspace} (counted : w.Counted n) : (r.run.run w).2.Counted n := by
  cases r with
  | within collection request =>
    rw [run]
    exact counted_ofAction (request.script_run collection).counting _ counted
  | held collection request =>
    rw [run]
    exact counted_ofAction (request.script_perform collection).counting _ counted
  | begin => rw [run]; exact counted_ofAction Counting.begin _ counted
  | commit => rw [run]; exact counted_ofAction Counting.commit _ counted
  | rollback => rw [run]; exact counted_ofAction Counting.rollback _ counted
  | depth => rw [run]; exact counted_ofAction (.pure _) _ counted
  | engineBegin | engineRollback => rw [run]; exact counted_ofAction (Uncounted.connect _).counting _ counted
  | setVersion version => rw [run]; exact counted_ofAction (Uncounted.write _).counting _ counted
  | transaction requests failure keepGoing =>
    have steps : ∀ n (v : Workspace), v.Counted n → ((do
        let (replies, stopped) ← runAll keepGoing requests
        return (replies, ending stopped failure) : StateM Workspace _).run v).2.Counted n := fun n v hv =>
      counted_runAll requests keepGoing hv
    rw [run]
    exact Counting.scope steps counted

theorem counted_runAll (requests : List Request) (keepGoing : Bool) {n : Nat} {w : Workspace} (counted : w.Counted n) :
    ((runAll keepGoing requests).run w).2.Counted n := by
  match requests with
  | [] => rw [runAll]; exact counted
  | r :: rest =>
    have first := counted_run r counted
    rcases runAll_cons_cases keepGoing r rest w with stopped | went
    · rw [stopped]; exact first
    · rw [went]; exact counted_runAll rest keepGoing first
end

theorem counted_runBlock (requests : List Request) (failure : Option String) (keepGoing : Bool) (counted : w.Counted n) :
    ((runBlock requests failure keepGoing).run w).2.Counted n := counted_runAll requests keepGoing counted

end Request

end Dossier
