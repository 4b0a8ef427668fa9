import Dossier.Collection.Documents
import Dossier.Collection.Promotion
import Dossier.Proofs.Session.Orderly

/-!
# Identifiers, clock and lock

What the database does not show: most actions take no identifier and read no clock (`Action.Still`), and where
no other connection holds the lock (`Workspace.Unlocked`), a level opens and a statement fails only by itself.
-/

namespace Dossier

open Workspace

namespace Action

variable {α β : Type} {a : Action α} {f : α → Action β}

/-- The action takes no identifier. -/
def Nameless (a : Action α) : Prop := ∀ w, (a.result w).2.ids = w.ids

/-- The action takes no identifier and leaves the clock as it is. -/
def Still (a : Action α) : Prop := ∀ w, (a.result w).2.ids = w.ids ∧ (a.result w).2.clock = w.clock

namespace Still

theorem nameless (h : Still a) : Nameless a := fun w => (h w).1

theorem pure (x : α) : Still (Pure.pure x : Action α) := fun _ => ⟨rfl, rfl⟩

theorem throw (e : StoreError) : Still (MonadExcept.throw e : Action α) := fun _ => ⟨rfl, rfl⟩

theorem bind (first : Still a) (next : ∀ x, Still (f x)) : Still (a >>= f) := by
  intro w
  have here := first w
  rw [result_bind]
  cases made : a.result w with
  | mk r v =>
    rw [made] at here
    cases r with
    | error e => exact here
    | ok x =>
      have there := next x v
      exact ⟨there.1.trans here.1, there.2.trans here.2⟩

theorem attempt (h : Still a) : Still (Action.attempt a) := fun w => by rw [result_attempt]; exact h w

theorem ofRequest (r : Except CompileError α) : Still (Action.ofRequest r) := fun w => by
  rw [result_ofRequest]; exact ⟨rfl, rfl⟩

theorem report (e : Event) : Still (Action.report e) := fun _ => ⟨rfl, rfl⟩

theorem depth : Still Action.depth := fun _ => ⟨rfl, rfl⟩

theorem get : Still (MonadState.get : Action Workspace) := fun _ => ⟨rfl, rfl⟩

theorem modify {g : Workspace → Workspace} (h : ∀ w, (g w).ids = w.ids ∧ (g w).clock = w.clock) :
    Still (modify g : Action Unit) := h

theorem connect (g : Connection → Except EngineError Connection) : Still (Action.connect g) := by
  intro w
  rw [result_connect]
  cases g w.connection <;> exact ⟨rfl, rfl⟩

theorem read (g : Database → Except EngineError α) : Still (Action.read g) := fun w => by
  rw [result_read]; exact ⟨rfl, rfl⟩

theorem write (g : Database → Except EngineError (α × Database)) : Still (Action.write g) := by
  intro w
  rw [result_write]
  cases w.connection.write g <;> exact ⟨rfl, rfl⟩

theorem alter (g : Database → Except EngineError Database) : Still (Action.alter g) := write _

/-! ## Levels -/

theorem begin : Still Action.begin := by
  refine depth.bind fun level => ?_
  split
  · exact (connect _).bind fun _ => modify fun _ => ⟨rfl, rfl⟩
  · exact (connect _).bind fun _ => modify fun _ => ⟨rfl, rfl⟩

theorem closeLevels : Still Action.closeLevels := by
  refine modify fun w => ?_
  split <;> exact ⟨rfl, rfl⟩

theorem commit : Still Action.commit := by
  refine depth.bind fun level => ?_
  split
  · exact throw _
  · exact (connect _).bind fun _ => closeLevels
  · exact (connect _).bind fun _ => modify fun _ => ⟨rfl, rfl⟩

theorem rollback : Still Action.rollback := by
  refine get.bind fun w => ?_
  split
  · exact throw _
  · split
    · exact closeLevels
    · split
      · exact (connect _).bind fun _ => closeLevels
      · refine (connect _).attempt.bind fun outcome => ?_
        split
        · exact modify fun _ => ⟨rfl, rfl⟩
        · refine bind ?_ fun _ => closeLevels.bind fun _ => throw _
          exact modify fun _ => ⟨rfl, rfl⟩

theorem commitTo (level fuel : Nat) : Still (Action.commitTo level fuel) := by
  induction fuel with
  | zero => exact pure _
  | succ fuel ih =>
    rw [Action.commitTo]
    refine depth.bind fun _ => ?_
    split
    · exact commit.bind fun _ => ih
    · exact pure _

theorem unwindTo (level : Nat) (cause : StoreError) (fuel : Nat) : Still (Action.unwindTo level cause fuel) := by
  induction fuel with
  | zero => exact pure _
  | succ fuel ih =>
    rw [Action.unwindTo]
    refine depth.bind fun _ => ?_
    split
    · refine rollback.attempt.bind fun outcome => ?_
      cases outcome with
      | ok _ => exact ih
      | error e => exact (report _).bind fun _ => ih
    · exact pure _

end Still

namespace Nameless

theorem now : Nameless Action.now := fun _ => rfl

theorem bind (first : Nameless a) (next : ∀ x, Nameless (f x)) : Nameless (a >>= f) := by
  intro w
  have here := first w
  rw [result_bind]
  cases made : a.result w with
  | mk r v =>
    rw [made] at here
    cases r with
    | error e => exact here
    | ok x => exact (next x v).trans here

theorem attempt (h : Nameless a) : Nameless (Action.attempt a) := fun w => by rw [result_attempt]; exact h w

theorem transaction (h : Nameless a) : Nameless (Action.transaction a) := by
  intro w
  have opens := (Still.begin w).1
  rw [result_transaction]
  cases begun : Action.begin.result w with
  | mk r v =>
    rw [begun] at opens
    cases r with
    | error e => exact opens
    | ok _ =>
      have ran := h v
      simp only
      cases made : a.result v with
      | mk r u =>
        rw [made] at ran
        have through : ∀ u' : Workspace, u'.ids = u.ids → u'.ids = w.ids := fun u' same => same.trans (ran.trans opens)
        cases r with
        | error e => exact through _ (Still.unwindTo _ _ _ u).1
        | ok x =>
          have closes := through _ (Still.commitTo (v.depth - 1) u.depth u).1
          simp only
          cases closed : (Action.commitTo (v.depth - 1) u.depth).result u with
          | mk r t =>
            rw [closed] at closes
            cases r with
            | ok _ => exact closes
            | error e => exact (Still.unwindTo (v.depth - 1) e t.depth t).1.trans closes

end Nameless

end Action

/-! ## The lock -/

namespace Workspace

/-- No other connection holds the lock, unless a transaction is open that holds it. -/
def Unlocked (w : Workspace) : Prop := w.connection.transaction = none → w.connection.file.writer = none

/-- Another connection holds the lock, and no transaction is open. -/
def Barred (w : Workspace) : Prop := w.connection.transaction = none ∧ w.connection.isLocked = true

/-- What every action leaves of an orderly workspace: the levels and the lock. -/
structure Kept (v w : Workspace) : Prop where
  orderly : v.Orderly
  base : v.base = w.base
  unlocked : w.Unlocked → v.Unlocked

variable {v w : Workspace}

theorem Kept.refl (orderly : w.Orderly) : Kept w w := ⟨orderly, rfl, id⟩

/-- A reading of the clock. -/
theorem Kept.read (orderly : w.Orderly) : Kept { w with clock := w.clock.rest } w := ⟨orderly, rfl, fun unlocked => unlocked⟩

theorem Kept.trans {u : Workspace} (h : Kept u v) (h' : Kept v w) : Kept u w :=
  ⟨h.orderly, h.base.trans h'.base, fun unlocked => h.unlocked (h'.unlocked unlocked)⟩

theorem Unlocked.free (h : w.Unlocked) : ¬ w.Barred := by
  rintro ⟨idle, locked⟩
  simp [Connection.isLocked, h idle] at locked

theorem unlocked_of_base (inside : w.base.isSome) : w.Unlocked := by
  intro idle
  simp [base, idle] at inside

theorem opened_isSome (w : Workspace) : w.opened.isSome := by
  unfold opened
  cases w.connection.transaction <;> rfl

end Workspace

namespace Action

variable {α : Type} {v w : Workspace}

/-- Without a lock that another connection holds, a level opens. -/
theorem begin_unlocked (orderly : w.Orderly) (unlocked : w.Unlocked) : (begin.result w).1 = .ok () := by
  rcases begin_spec orderly with ⟨e, eq, idle⟩ | ⟨ok, -⟩
  · have idle : w.connection.transaction = none := by simpa [base] using idle
    unfold Workspace.Orderly at orderly
    simp only [idle] at orderly
    rw [begin, result_bind, result_depth]
    simp [orderly, result_bind, result_connect, Connection.begin, idle, unlocked idle]
  · exact ok

/-- A statement that reads answers what the current database says, and leaves all else. -/
theorem read_kept (orderly : w.Orderly) (f : Database → Except EngineError α) :
    ((read f).result w).1 = (f w.current).mapError .ofEngine ∧ Kept ((read f).result w).2 w
      ∧ ((read f).result w).2.current = w.current := by
  obtain ⟨answer, same⟩ := read_spec orderly f
  have file : ((read f).result w).2.connection.file = w.connection.file := by
    rw [result_read]
    unfold Connection.read
    cases w.connection.transaction <;> rfl
  refine ⟨answer, ⟨same.orderly orderly, same.base, fun unlocked idle => ?_⟩, same.current⟩
  rw [file]
  exact unlocked (same.transaction ▸ idle)

/-- A statement that writes does what it says or fails by itself, unless the lock bars it. -/
theorem write_of_free (orderly : w.Orderly) (free : ¬ w.Barred) (f : Database → Except EngineError (α × Database)) :
    (∃ e, f w.current = .error e ∧ (write f).result w = (.error (.ofEngine e), w))
      ∨ ∃ x db, f w.current = .ok (x, db) ∧ ((write f).result w).1 = .ok x ∧ Kept ((write f).result w).2 w
        ∧ ((write f).result w).2.current = db := by
  have passes : w.connection.transaction = none → w.connection.isLocked = false := fun idle =>
    Bool.eq_false_iff.2 fun locked => free ⟨idle, locked⟩
  rcases write_spec orderly f with ⟨e, eq, own⟩ | ⟨x, db, made, ok, orderly', base, current⟩
  · left
    cases idle : w.connection.transaction with
    | some t =>
      obtain ⟨e', failed, rfl⟩ := own (by rw [Workspace.base, idle]; rfl)
      exact ⟨e', failed, eq⟩
    | none =>
      have seen : w.current = w.connection.file.contents := by simp [current, idle]
      rw [result_write] at eq ⊢
      simp only [Connection.write, idle, passes idle, Bool.false_eq_true, if_false] at eq ⊢
      rw [seen]
      cases made : f w.connection.file.contents with
      | error e' => exact ⟨e', rfl, rfl⟩
      | ok p =>
        rw [made] at eq
        cases (Prod.mk.inj eq).1
  · refine .inr ⟨x, db, made, ok, ⟨orderly', base, fun unlocked idle => ?_⟩, current⟩
    have before : w.connection.transaction = none := by
      unfold Workspace.base at base
      rw [idle] at base
      simpa using base.symm
    rw [result_write] at idle ⊢
    simp only [Connection.write, before, passes before, Bool.false_eq_true, if_false]
    cases f w.connection.file.contents with
    | error e => exact unlocked before
    | ok p => exact unlocked before

/-- A statement that the lock bars fails, and changes nothing. -/
theorem write_of_barred (barred : w.Barred) (f : Database → Except EngineError (α × Database)) :
    (write f).result w = (.error (.ofEngine Connection.locked), w) := by
  rw [result_write, Connection.write, barred.1]
  simp only [barred.2, if_true]

theorem write_unlocked (orderly : w.Orderly) (unlocked : w.Unlocked) (f : Database → Except EngineError (α × Database)) :
    (∃ e, f w.current = .error e ∧ (write f).result w = (.error (.ofEngine e), w))
      ∨ ∃ x db, f w.current = .ok (x, db) ∧ ((write f).result w).1 = .ok x ∧ Kept ((write f).result w).2 w
        ∧ ((write f).result w).2.current = db :=
  write_of_free orderly unlocked.free f

/-- The end of a level gives back the lock that it took. -/
theorem unlocked_commit (hw : w.Orderly) (hv : v.Orderly) (below : v.base = w.opened) : (commit.result v).2.Unlocked := by
  obtain ⟨-, -, base, -⟩ := commit_opened hw hv below
  obtain ⟨t, tv, ht, eq⟩ := transaction_of_opened hv below
  cases tw : w.connection.transaction with
  | some u => exact unlocked_of_base (by rw [base, Workspace.base, tw]; rfl)
  | none =>
    simp only [opened, tw, Option.some.injEq, Prod.mk.injEq] at eq
    rw [commit_outermost tv ht eq.2.1]
    simp [Connection.close, ht.writes, Unlocked]

theorem unlocked_rollback (hw : w.Orderly) (hv : v.Orderly) (below : v.base = w.opened) :
    (rollback.result v).2.Unlocked := by
  obtain ⟨-, -, base, -⟩ := rollback_opened hw hv below
  obtain ⟨t, tv, ht, eq⟩ := transaction_of_opened hv below
  cases tw : w.connection.transaction with
  | some u => exact unlocked_of_base (by rw [base, Workspace.base, tw]; rfl)
  | none =>
    simp only [opened, tw, Option.some.injEq, Prod.mk.injEq] at eq
    rw [rollback_outermost tv ht eq.2.1]
    simp [Connection.abandon, ht.writes, Unlocked]

/-- A level on a workspace that is not locked, once it is open. -/
theorem exists_begun (orderly : w.Orderly) (unlocked : w.Unlocked) : ∃ v : Workspace, begin.result w = (.ok (), v)
    ∧ v.Orderly ∧ v.base = w.opened ∧ v.current = w.current := by
  have opens := begin_unlocked orderly unlocked
  rcases begin_spec orderly with ⟨e, eq, -⟩ | ⟨ok, rest⟩
  · rw [eq] at opens
    cases opens
  · exact ⟨_, Prod.ext ok rfl, rest⟩

/-- An action that closes the levels that it opens, in a level of its own: this is committed or rolled back. -/
theorem result_transaction_of_begun (orderly : w.Orderly) (begun : begin.result w = (.ok (), v)) (hv : v.Orderly)
    (below : v.base = w.opened) (a : Action α) (framed : (a.result v).2.Orderly)
    (base : (a.result v).2.base = v.base) : (transaction a).result w = ((a.result v).1,
      ((if (a.result v).1.isOk then commit else rollback).result (a.result v).2).2) := by
  have entry : v.depth - 1 = w.depth := by rw [hv.depth_opened orderly below]; rfl
  have under := base.trans below
  rw [result_transaction, begun]
  simp only [entry]
  cases ran : a.result v with
  | mk r u =>
    rw [ran] at framed under
    cases r with
    | error e => simp only [unwindTo_eq orderly framed under, Except.isOk, Except.toBool, Bool.false_eq_true, if_false]
    | ok x => simp only [commitTo_eq orderly framed under, Except.isOk, Except.toBool, if_true]

/-- A level that has been opened: what an action does in it is kept or undone. -/
theorem level_of_begun (orderly : w.Orderly) (begun : begin.result w = (.ok (), v)) : v.Orderly ∧ v.base = w.opened
    ∧ v.current = w.current ∧ v.ids = w.ids ∧ v.clock = w.clock
    ∧ ∀ a : Action α, (a.result v).2.Orderly → (a.result v).2.base = v.base →
      ∃ t : Workspace, (transaction a).result w = ((a.result v).1, t) ∧ t.Orderly ∧ t.base = w.base ∧ t.Unlocked
        ∧ t.ids = (a.result v).2.ids ∧ t.clock = (a.result v).2.clock
        ∧ t.current = if (a.result v).1.isOk then (a.result v).2.current else w.current := by
  obtain ⟨hv, below, current⟩ : v.Orderly ∧ v.base = w.opened ∧ v.current = w.current := by
    rcases begin_spec orderly with ⟨e, eq, -⟩ | ⟨-, rest⟩
    · cases begun.symm.trans eq
    · rwa [begun] at rest
  have still := Still.begin w
  rw [begun] at still
  refine ⟨hv, below, current, still.1, still.2, fun a framed base => ?_⟩
  refine ⟨_, result_transaction_of_begun orderly begun hv below a framed base, ?_⟩
  have under := base.trans below
  cases (a.result v).1 with
  | error e =>
    obtain ⟨-, done, bottom, seen⟩ := rollback_opened orderly framed under
    have same := Still.rollback (a.result v).2
    exact ⟨done, bottom, unlocked_rollback orderly framed under, same.1, same.2, seen⟩
  | ok x =>
    obtain ⟨-, done, bottom, seen⟩ := commit_opened orderly framed under
    have same := Still.commit (a.result v).2
    exact ⟨done, bottom, unlocked_commit orderly framed under, same.1, same.2, seen⟩

/-- A level on a workspace that is not locked: what an action does in it is kept or undone. -/
theorem exists_level (orderly : w.Orderly) (unlocked : w.Unlocked) : ∃ v : Workspace, v.Orderly ∧ v.base = w.opened
    ∧ v.current = w.current ∧ v.ids = w.ids ∧ v.clock = w.clock
    ∧ ∀ a : Action α, (a.result v).2.Orderly → (a.result v).2.base = v.base →
      ∃ t : Workspace, (transaction a).result w = ((a.result v).1, t) ∧ t.Orderly ∧ t.base = w.base ∧ t.Unlocked
        ∧ t.ids = (a.result v).2.ids ∧ t.clock = (a.result v).2.clock
        ∧ t.current = if (a.result v).1.isOk then (a.result v).2.current else w.current := by
  obtain ⟨v, begun, -⟩ := exists_begun orderly unlocked
  exact ⟨v, level_of_begun orderly begun⟩

end Action

end Dossier
