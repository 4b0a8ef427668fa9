import Dossier.Proofs.Database.Unkeyed
import Dossier.Proofs.Session.Plain

/-!
# Sessions without unique indexes

`Workspace.unkeyed` takes the uniqueness from the indexes of every database in a workspace. `Action.Keyless` says of an
action that it does there what it does in the workspace itself, unless there a violated constraint stops it. There is
one rule for each way to make an action.
-/

namespace Dossier

open Database Workspace

/-! ## Workspaces -/

/-- The file without unique indexes. -/
def File.unkeyed (f : File) : File := { f with contents := f.contents.unkeyed }

/-- The transaction without unique indexes. -/
def Transaction.unkeyed (t : Transaction) : Transaction :=
  { t with view := t.view.unkeyed, saved := t.saved.map fun s => (s.1, s.2.unkeyed) }

namespace Connection

/-- The connection without unique indexes. -/
def unkeyed (c : Connection) : Connection := ⟨c.file.unkeyed, c.handle, c.transaction.map Transaction.unkeyed⟩

variable (c : Connection) (t : Transaction)

@[simp] theorem transaction_unkeyed : c.unkeyed.transaction = c.transaction.map Transaction.unkeyed := rfl

@[simp] theorem isLocked_unkeyed : c.unkeyed.isLocked = c.isLocked := rfl

@[simp] theorem mayWrite_unkeyed : c.unkeyed.mayWrite t.unkeyed = c.mayWrite t := rfl

@[simp] theorem pin_unkeyed : c.unkeyed.pin t.unkeyed = (c.pin t).unkeyed := by
  unfold pin
  obtain ⟨view, snapshot, writes, saved, bySavepoint⟩ := t
  cases snapshot with
  | some n => rfl
  | none => simp [Transaction.unkeyed, unkeyed, File.unkeyed]

theorem goBack_unkeyed (h : Handle) (since now : Database) : h.goBack since.unkeyed now.unkeyed = h.goBack since now := by
  unfold Handle.goBack
  rw [schema_unkeyed, schema_unkeyed]

theorem read_unkeyed : c.unkeyed.read = (c.read.1.unkeyed, c.read.2.unkeyed) := by
  unfold read
  cases open_ : c.transaction with
  | none =>
    simp only [transaction_unkeyed, open_, Option.map_none]
    simp only [unkeyed, open_]
    rfl
  | some t =>
    simp only [transaction_unkeyed, open_, Option.map_some, pin_unkeyed]
    rfl

theorem write_unkeyed {α : Type} {f : Database → Except EngineError (α × Database)}
    (follows : ∀ db, Follows (Prod.map id Database.unkeyed) (f db) (f db.unkeyed)) :
    Follows (Prod.map id unkeyed) (c.write f) (c.unkeyed.write f) := by
  unfold write
  cases open_ : c.transaction with
  | none =>
    simp only [transaction_unkeyed, open_, Option.map_none, isLocked_unkeyed]
    split
    · exact .inr rfl
    · refine (follows c.file.contents).bind fun _ => .inr ?_
      simp only [unkeyed, open_]
      rfl
  | some t =>
    simp only [transaction_unkeyed, open_, Option.map_some, pin_unkeyed, mayWrite_unkeyed]
    split
    · exact (follows _).bind fun _ => .inr rfl
    · exact .inr rfl

theorem begin_unkeyed : c.unkeyed.begin = c.begin.map unkeyed := by
  unfold begin
  cases open_ : c.transaction with
  | some t => simp only [transaction_unkeyed, open_, Option.map_some]; rfl
  | none =>
    simp only [transaction_unkeyed, open_, Option.map_none]
    rw [show c.unkeyed.file.writer = c.file.writer from rfl]
    split <;> rfl

theorem savepoint_unkeyed (level : Nat) : c.unkeyed.savepoint level = (c.savepoint level).unkeyed := by
  obtain ⟨file, handle, transaction⟩ := c
  cases transaction <;> rfl

theorem close_unkeyed : c.unkeyed.close t.unkeyed = (c.close t).unkeyed := by
  unfold close
  obtain ⟨view, snapshot, writes, saved, bySavepoint⟩ := t
  cases writes <;> rfl

theorem commit_unkeyed : c.unkeyed.commit = c.commit.map unkeyed := by
  obtain ⟨file, handle, transaction⟩ := c
  cases transaction with
  | none => rfl
  | some t => exact congrArg Except.ok (close_unkeyed ⟨file, handle, some t⟩ t)

theorem abandon_unkeyed : c.unkeyed.abandon t.unkeyed = (c.abandon t).unkeyed := by
  unfold abandon
  obtain ⟨view, snapshot, writes, saved, bySavepoint⟩ := t
  cases writes with
  | false => rfl
  | true =>
    simp only [if_true, Transaction.unkeyed]
    rw [show c.unkeyed.file.contents = c.file.contents.unkeyed from rfl, goBack_unkeyed]
    rfl

theorem rollback_unkeyed : c.unkeyed.rollback = c.rollback.map unkeyed := by
  obtain ⟨file, handle, transaction⟩ := c
  cases transaction with
  | none => rfl
  | some t => exact congrArg Except.ok (abandon_unkeyed ⟨file, handle, some t⟩ t)

theorem reset_unkeyed : c.unkeyed.reset = c.reset.unkeyed := by
  obtain ⟨file, handle, transaction⟩ := c
  cases transaction with
  | none => rfl
  | some t => exact abandon_unkeyed ⟨file, handle, some t⟩ t

theorem savedFrom_unkeyed (level : Nat) (saved : List (Nat × Database)) :
    savedFrom level (saved.map fun s => (s.1, s.2.unkeyed)) = (savedFrom level saved).map fun s => (s.1, s.2.unkeyed) := by
  unfold savedFrom
  rw [List.dropWhile_map]
  rfl

theorem release_unkeyed (level : Nat) : c.unkeyed.release level = (c.release level).map unkeyed := by
  obtain ⟨file, handle, transaction⟩ := c
  cases transaction with
  | none => rfl
  | some t =>
    have closed := close_unkeyed ⟨file, handle, some t⟩ t
    unfold release
    simp only [unkeyed, Option.map_some] at closed ⊢
    rw [show t.unkeyed.saved = t.saved.map fun s => (s.1, s.2.unkeyed) from rfl, savedFrom_unkeyed, closed]
    cases savedFrom level t.saved with
    | nil => rfl
    | cons s outer =>
      simp only [List.map_cons, List.isEmpty_map]
      rw [show t.unkeyed.bySavepoint = t.bySavepoint from rfl]
      split <;> rfl

theorem rollbackTo_unkeyed (level : Nat) : c.unkeyed.rollbackTo level = (c.rollbackTo level).map unkeyed := by
  obtain ⟨file, handle, transaction⟩ := c
  cases transaction with
  | none => rfl
  | some t =>
    unfold rollbackTo
    simp only [unkeyed, Option.map_some]
    rw [show t.unkeyed.saved = t.saved.map fun s => (s.1, s.2.unkeyed) from rfl, savedFrom_unkeyed]
    cases savedFrom level t.saved with
    | nil => rfl
    | cons s outer =>
      simp only [List.map_cons]
      rw [show t.unkeyed.view = t.view.unkeyed from rfl, goBack_unkeyed]
      rfl

end Connection

namespace Workspace

/-- The workspace without unique indexes. -/
def unkeyed (w : Workspace) : Workspace := { w with connection := w.connection.unkeyed }

@[simp] theorem depth_unkeyed (w : Workspace) : w.unkeyed.depth = w.depth := rfl

@[simp] theorem isIdle_unkeyed (w : Workspace) : w.unkeyed.connection.isIdle = w.connection.isIdle := by
  unfold unkeyed Connection.isIdle
  rw [Connection.transaction_unkeyed, Option.isNone_map]

theorem current_unkeyed (w : Workspace) : w.unkeyed.current = w.current.unkeyed := by
  unfold current unkeyed
  rw [Connection.transaction_unkeyed]
  cases w.connection.transaction <;> rfl

end Workspace

namespace Action

variable {α β : Type} {a : Action α} {f : α → Action β}

/-! ## Levels -/

/-- The action does without unique indexes what it does with them. -/
def Blind (a : Action α) : Prop := ∀ w, a.result w.unkeyed = ((a.result w).1, (a.result w).2.unkeyed)

namespace Blind

theorem pure (x : α) : Blind (Pure.pure x : Action α) := fun _ => rfl

theorem throw (e : StoreError) : Blind (MonadExcept.throw e : Action α) := fun _ => rfl

theorem bind (first : Blind a) (next : ∀ x, Blind (f x)) : Blind (a >>= f) := by
  intro w
  rw [result_bind, result_bind, first w]
  cases a.result w with
  | mk r v =>
    cases r with
    | error e => rfl
    | ok x => exact next x v

theorem attempt (h : Blind a) : Blind (Action.attempt a) := fun w => by rw [result_attempt, result_attempt, h w]

theorem depth : Blind Action.depth := fun _ => rfl

theorem report (e : Event) : Blind (Action.report e) := fun _ => rfl

theorem modify {g : Workspace → Workspace} (same : ∀ w, g w.unkeyed = (g w).unkeyed) : Blind (modify g : Action Unit) :=
  fun w => congrArg (Prod.mk _) (same w)

theorem connect {g : Connection → Except EngineError Connection} (same : ∀ c, g c.unkeyed = (g c).map Connection.unkeyed) :
    Blind (Action.connect g) := by
  intro w
  rw [result_connect, result_connect, show w.unkeyed.connection = w.connection.unkeyed from rfl, same]
  cases g w.connection <;> rfl

theorem begin : Blind Action.begin := by
  refine depth.bind fun level => ?_
  split
  · exact (connect Connection.begin_unkeyed).bind fun _ => modify fun _ => rfl
  · refine (connect fun c => ?_).bind fun _ => modify fun _ => rfl
    simp only [Connection.savepoint_unkeyed, Except.map]

theorem closeLevels : Blind Action.closeLevels := by
  refine modify fun w => ?_
  rw [depth_unkeyed]
  split <;> rfl

theorem commit : Blind Action.commit := by
  refine depth.bind fun level => ?_
  split
  · exact throw _
  · exact (connect Connection.commit_unkeyed).bind fun _ => closeLevels
  · exact (connect fun c => c.release_unkeyed _).bind fun _ => modify fun _ => rfl

theorem rollbackSavepoint (level : Nat) : Blind (Action.rollbackSavepoint level) := by
  refine (connect fun c => ?_).attempt.bind fun outcome => ?_
  · rw [Connection.rollbackTo_unkeyed]
    cases c.rollbackTo level with
    | error e => rfl
    | ok d => exact d.release_unkeyed level
  · split
    · exact modify fun _ => rfl
    · refine bind (modify fun w => ?_) fun _ => closeLevels.bind fun _ => throw _
      simp only [Workspace.unkeyed, Connection.reset_unkeyed]

theorem rollback : Blind Action.rollback := by
  intro w
  rw [Action.rollback, result_bind, result_bind, result_get, result_get]
  simp only [depth_unkeyed, isIdle_unkeyed]
  cases w.depth with
  | zero => exact throw _ w
  | succ level =>
    simp only
    split
    · exact closeLevels w
    · split
      · exact bind (connect Connection.rollback_unkeyed) (fun _ => closeLevels) w
      · exact rollbackSavepoint level w

theorem commitTo (level fuel : Nat) : Blind (Action.commitTo level fuel) := by
  induction fuel with
  | zero => exact pure _
  | succ fuel ih =>
    rw [Action.commitTo]
    refine depth.bind fun _ => ?_
    split
    · exact commit.bind fun _ => ih
    · exact pure _

theorem unwindTo (level : Nat) (cause : StoreError) (fuel : Nat) : Blind (Action.unwindTo level cause fuel) := by
  induction fuel with
  | zero => exact pure _
  | succ fuel ih =>
    rw [Action.unwindTo]
    refine depth.bind fun _ => ?_
    split
    · refine rollback.attempt.bind fun outcome => ?_
      cases outcome with
      | ok _ => exact ih
      | error e => exact (report _).bind fun _ => ih
    · exact pure _

theorem read {g : Database → Except EngineError α} (same : ∀ db, g db.unkeyed = g db) : Blind (Action.read g) := by
  intro w
  rw [result_read, result_read, show w.unkeyed.connection = w.connection.unkeyed from rfl, Connection.read_unkeyed]
  simp only [same]
  rfl

end Blind

/-! ## Actions -/

/-- The action does without unique indexes what it does with them, unless with them it violates a constraint. -/
def Keyless (a : Action α) : Prop :=
  ∀ w, (∃ message, (a.result w).1 = .error (.constraint message))
    ∨ a.result w.unkeyed = ((a.result w).1, (a.result w).2.unkeyed)

theorem Blind.keyless (h : Blind a) : Keyless a := fun w => .inr (h w)

namespace Keyless

theorem bind (first : Keyless a) (next : ∀ x, Keyless (f x)) : Keyless (a >>= f) := by
  intro w
  rw [result_bind, result_bind]
  rcases first w with ⟨message, violated⟩ | same
  · left
    cases ran : a.result w with
    | mk r v =>
      rw [ran] at violated
      obtain rfl : r = _ := violated
      exact ⟨message, rfl⟩
  · rw [same]
    cases a.result w with
    | mk r v =>
      cases r with
      | error e => exact .inr rfl
      | ok x => exact next x v

theorem write {g : Database → Except EngineError (α × Database)}
    (follows : ∀ db, Follows (Prod.map id Database.unkeyed) (g db) (g db.unkeyed)) : Keyless (Action.write g) := by
  intro w
  rw [result_write, result_write, show w.unkeyed.connection = w.connection.unkeyed from rfl]
  rcases w.connection.write_unkeyed follows with ⟨message, violated⟩ | same
  · rw [violated]
    exact .inl ⟨message, rfl⟩
  · rw [same]
    cases w.connection.write g <;> exact .inr rfl

theorem execute (name : CollectionName) (r : Resolver) {answer : Answer} (s : Statement answer) :
    Keyless (Action.execute name r s) := by
  cases answer with
  | changed => exact write fun db => Follows.run db name r s
  | rows | number =>
    rw [Action.execute_eq_read name r s (by decide)]
    exact (Blind.read fun db => run_unkeyed db name r s (by decide)).keyless

/-- An action in a level of its own. -/
theorem transaction (h : Keyless a) : Keyless (Action.transaction a) := by
  intro w
  rw [result_transaction, result_transaction, Blind.begin w]
  cases Action.begin.result w with
  | mk r v =>
    cases r with
    | error e => exact .inr rfl
    | ok _ =>
      simp only
      rcases h v with ⟨message, violated⟩ | same
      · left
        cases ran : a.result v with
        | mk r u =>
          rw [ran] at violated
          obtain rfl : r = _ := violated
          exact ⟨message, rfl⟩
      · right
        rw [same]
        cases a.result v with
        | mk r u =>
          cases r with
          | error e => simp only [depth_unkeyed, Blind.unwindTo _ _ _ u]
          | ok x =>
            simp only [depth_unkeyed, Blind.commitTo _ _ u]
            cases (Action.commitTo (v.depth - 1) u.depth).result u with
            | mk r t =>
              cases r with
              | error e => simp only [depth_unkeyed, Blind.unwindTo _ _ _ t]
              | ok _ => rfl

end Keyless

/-- A plain action looks at unique indexes for violated constraints alone. -/
theorem Plain.keyless (h : Plain a) : Keyless a := by
  induction h with
  | pure x => exact (Blind.pure x).keyless
  | throw e => exact (Blind.throw e).keyless
  | bind _ _ first next => exact first.bind next
  | nextId => exact fun _ => .inr rfl
  | now => exact fun _ => .inr rfl
  | execute name r s => exact .execute name r s
  | transaction _ ih => exact .transaction ih

end Action

end Dossier
