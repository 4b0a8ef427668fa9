import Dossier.Proofs.Session.Action

/-!
# Orderly workspaces

The count of levels of a session agrees with the engine (`Workspace.Orderly`) unless calls of the engine go past
it. A level that has been opened on a workspace closes again, by a commit or a rollback, to what was there
before (`Action.commit_opened`, `Action.rollback_opened`).
-/

namespace Dossier

/-! ## Workspaces -/

/-- The numbers of levels, from the innermost out. -/
def levels : Nat → List Nat
  | 0 => []
  | n + 1 => (n + 1) :: levels n

/-- A transaction that a session opened by its own levels: it holds the lock, and its savepoints are those of
the inner levels. -/
structure Transaction.Orderly (t : Transaction) (depth : Nat) : Prop where
  depth_eq : depth = t.saved.length + 1
  levels_eq : t.saved.map (·.1) = levels t.saved.length
  writes : t.writes = true
  opened : t.bySavepoint = false
  pinned : t.snapshot.isSome

/-- The number of the innermost savepoint is one less than that of the levels. -/
theorem Transaction.Orderly.depth_saved {t : Transaction} {depth level : Nat} {db : Database}
    {outer : List (Nat × Database)} (h : t.Orderly depth) (saved : t.saved = (level, db) :: outer) :
    level = outer.length + 1 ∧ depth = level + 1 := by
  have numbers := h.levels_eq
  have depth := h.depth_eq
  rw [saved] at numbers depth
  simp only [List.map_cons, List.length_cons, levels, List.cons.injEq] at numbers depth
  exact ⟨numbers.1, by omega⟩

namespace Workspace

/-- The session's count of levels agrees with the engine. -/
def Orderly (w : Workspace) : Prop :=
  match w.connection.transaction with
  | none => w.depth = 0
  | some t => t.Orderly w.depth

/-- The database that the next statement sees. -/
def current (w : Workspace) : Database :=
  match w.connection.transaction with
  | none => w.connection.file.contents
  | some t => t.view

/-- What lies below the current database: the snapshot, the savepoints and the contents of the file. -/
def base (w : Workspace) : Option (Option Nat × List (Nat × Database) × Database) :=
  w.connection.transaction.map fun t => (t.snapshot, t.saved, w.connection.file.contents)

/-- What lies below once another level is open. -/
def opened (w : Workspace) : Option (Option Nat × List (Nat × Database) × Database) :=
  match w.connection.transaction with
  | none => some (some w.connection.file.commits, [], w.connection.file.contents)
  | some t => some (t.snapshot, (w.depth, t.view) :: t.saved, w.connection.file.contents)

/-- Two workspaces differ at most in the handle, the identifiers, the events, the clock, the commits and the
lock. -/
structure Same (v w : Workspace) : Prop where
  contents : v.connection.file.contents = w.connection.file.contents
  transaction : v.connection.transaction = w.connection.transaction
  depth : v.depth = w.depth

theorem Same.refl (w : Workspace) : Same w w := ⟨rfl, rfl, rfl⟩

section
variable {v w : Workspace}

theorem Same.orderly (same : Same v w) (h : w.Orderly) : v.Orderly := by
  unfold Orderly
  rw [same.transaction, same.depth]
  exact h

theorem Same.current (same : Same v w) : v.current = w.current := by
  unfold Workspace.current
  rw [same.transaction, same.contents]

theorem Same.base (same : Same v w) : v.base = w.base := by
  unfold Workspace.base
  rw [same.transaction, same.contents]

/-- Orderly workspaces over one base that see one database are the same. -/
theorem Same.of_base (hv : v.Orderly) (hw : w.Orderly) (base : v.base = w.base) (current : v.current = w.current) :
    Same v w := by
  unfold Workspace.base at base
  unfold Workspace.current at current
  unfold Orderly at hv hw
  cases tv : v.connection.transaction with
  | none =>
    cases tw : w.connection.transaction with
    | none =>
      simp only [tv, tw] at current hv hw
      exact ⟨current, by rw [tv, tw], hv.trans hw.symm⟩
    | some t => simp [tv, tw] at base
  | some t =>
    cases tw : w.connection.transaction with
    | none => simp [tv, tw] at base
    | some u =>
      simp only [tv, tw, Option.map_some, Option.some.injEq, Prod.mk.injEq] at base current hv hw
      obtain ⟨snapshot, saved, contents⟩ := base
      refine ⟨contents, ?_, by rw [hv.depth_eq, hw.depth_eq, saved]⟩
      rw [tv, tw]
      obtain ⟨view, snap, writes, levels, opened⟩ := t
      obtain ⟨view', snap', writes', levels', opened'⟩ := u
      simp only at current snapshot saved
      obtain rfl : writes = writes' := hv.writes.trans hw.writes.symm
      obtain rfl : opened = opened' := hv.opened.trans hw.opened.symm
      rw [current, snapshot, saved]

theorem Orderly.depth_opened (hv : v.Orderly) (hw : w.Orderly) (base : v.base = w.opened) :
    v.depth = w.depth + 1 := by
  unfold Orderly at hv hw
  unfold Workspace.base at base
  unfold Workspace.opened at base
  cases tv : v.connection.transaction with
  | none => cases tw : w.connection.transaction <;> simp [tv, tw] at base
  | some t =>
    cases tw : w.connection.transaction with
    | none =>
      simp only [tv, tw, Option.map_some, Option.some.injEq, Prod.mk.injEq] at base hv hw
      simp [hv.depth_eq, base.2.1, hw]
    | some u =>
      simp only [tv, tw, Option.map_some, Option.some.injEq, Prod.mk.injEq] at base hv hw
      simp [hv.depth_eq, base.2.1, hw.depth_eq]

end

end Workspace

namespace Action

open Workspace

variable {α β : Type} {v w : Workspace}

/-! ## Statements -/

/-- A statement that reads sees the current database and leaves the workspace the same. -/
theorem read_spec (h : w.Orderly) (f : Database → Except EngineError α) :
    ((read f).result w).1 = (f w.current).mapError .ofEngine ∧ Same ((read f).result w).2 w := by
  unfold Orderly at h
  rw [result_read]
  unfold Connection.read current
  cases t : w.connection.transaction with
  | none => exact ⟨rfl, rfl, t.symm, rfl⟩
  | some t' =>
    simp only [t] at h
    have pinned : w.connection.pin t' = t' := by
      obtain ⟨n, hn⟩ := Option.isSome_iff_exists.1 h.pinned
      simp [Connection.pin, hn]
    simp only [pinned]
    exact ⟨trivial, rfl, t.symm, rfl⟩

/-- A statement that writes fails and leaves the workspace as it is, or makes the database that it is to make
the current one. Inside a transaction only the statement itself can fail. -/
theorem write_spec (h : w.Orderly) (f : Database → Except EngineError (α × Database)) :
    (∃ e, (write f).result w = (.error e, w) ∧ (w.base.isSome → ∃ e', f w.current = .error e' ∧ e = .ofEngine e'))
      ∨ ∃ x db, f w.current = .ok (x, db) ∧ ((write f).result w).1 = .ok x ∧ ((write f).result w).2.Orderly
        ∧ ((write f).result w).2.base = w.base ∧ ((write f).result w).2.current = db := by
  unfold Orderly at h
  rw [result_write]
  unfold Connection.write current base
  cases t : w.connection.transaction with
  | none =>
    simp only [t] at h
    by_cases locked : w.connection.isLocked = true
    · exact .inl ⟨_, by rw [if_pos locked], fun inside => by simp at inside⟩
    · simp only [locked, Bool.false_eq_true, if_false]
      cases made : f w.connection.file.contents with
      | error e => exact .inl ⟨_, rfl, fun inside => by simp at inside⟩
      | ok p => exact .inr ⟨p.1, p.2, rfl, rfl, h, rfl, rfl⟩
  | some t' =>
    simp only [t] at h
    have pinned : w.connection.pin t' = t' := by
      obtain ⟨n, hn⟩ := Option.isSome_iff_exists.1 h.pinned
      simp [Connection.pin, hn]
    have may : w.connection.mayWrite t' = true := by simp [Connection.mayWrite, h.writes]
    simp only [pinned, may, if_true]
    cases made : f t'.view with
    | error e => exact .inl ⟨_, rfl, fun _ => ⟨e, rfl, rfl⟩⟩
    | ok p =>
      exact .inr ⟨p.1, p.2, rfl, rfl, ⟨h.depth_eq, h.levels_eq, rfl, h.opened, h.pinned⟩, rfl, rfl⟩

/-! ## Levels -/

/-- Opening a level fails and changes nothing, or puts the current database below. An inner level does not
fail. -/
theorem begin_spec (h : w.Orderly) :
    (∃ e, begin.result w = (.error e, w) ∧ w.base = none)
      ∨ (begin.result w).1 = .ok () ∧ (begin.result w).2.Orderly ∧ (begin.result w).2.base = w.opened
        ∧ (begin.result w).2.current = w.current := by
  unfold Orderly at h
  rw [begin, result_bind, result_depth]
  cases t : w.connection.transaction with
  | none =>
    simp only [t] at h
    simp only [h, if_true, result_bind, result_connect, Connection.begin, t]
    by_cases locked : w.connection.file.writer.isSome = true
    · exact .inl ⟨_, by rw [if_pos locked], by simp [base, t]⟩
    · right
      simp only [locked, Bool.false_eq_true, if_false, result_modify]
      refine ⟨trivial, ⟨rfl, rfl, rfl, rfl, rfl⟩, ?_, ?_⟩
      · simp [base, opened, t]
      · simp [current, t]
  | some t' =>
    simp only [t] at h
    have inner : w.depth ≠ 0 := by have := h.depth_eq; omega
    right
    simp only [inner, if_false, result_bind, result_connect, Connection.savepoint, t, result_modify]
    refine ⟨trivial, ⟨by simp [h.depth_eq], ?_, h.writes, h.opened, h.pinned⟩, ?_, ?_⟩
    · simp [levels, h.levels_eq, h.depth_eq]
    · simp [base, opened, t]
    · simp [current, t]

/-- A workspace with a level open on another one. -/
theorem transaction_of_opened (hv : v.Orderly) (below : v.base = w.opened) :
    ∃ t, v.connection.transaction = some t ∧ t.Orderly v.depth ∧ some (t.snapshot, t.saved, v.connection.file.contents) = w.opened := by
  unfold Orderly at hv
  unfold base at below
  cases tv : v.connection.transaction with
  | none => cases tw : w.connection.transaction <;> simp [tv, opened, tw] at below
  | some t =>
    simp only [tv] at hv
    exact ⟨t, rfl, hv, by simpa [tv] using below⟩

section
variable {t : Transaction} {level : Nat} {db : Database} {outer : List (Nat × Database)}

/-- A commit of the outermost level commits the transaction of the engine. -/
theorem commit_outermost (tv : v.connection.transaction = some t) (ht : t.Orderly v.depth) (saved : t.saved = []) :
    commit.result v
      = (.ok (), { v with connection := v.connection.close t, depth := 0, active := v.active - 1 }) := by
  have depth : v.depth = 1 := by rw [ht.depth_eq, saved]; rfl
  rw [commit, result_bind, result_depth]
  simp [depth, result_bind, result_connect, Connection.commit, tv, closeLevels]

/-- A commit of an inner level releases its savepoint. -/
theorem commit_inner (tv : v.connection.transaction = some t) (ht : t.Orderly v.depth)
    (saved : t.saved = (level, db) :: outer) : commit.result v = (.ok (), { v with
      connection := { v.connection with transaction := some { t with saved := outer } }
      depth := level }) := by
  obtain ⟨number, depth⟩ := ht.depth_saved saved
  rw [commit, result_bind, result_depth]
  rw [number] at saved depth ⊢
  simp [depth, result_bind, result_connect, Connection.release, tv, Connection.savedFrom, saved, ht.opened]

/-- A rollback of the outermost level rolls the transaction of the engine back. -/
theorem rollback_outermost (tv : v.connection.transaction = some t) (ht : t.Orderly v.depth) (saved : t.saved = []) :
    rollback.result v
      = (.ok (), { v with connection := v.connection.abandon t, depth := 0, active := v.active - 1 }) := by
  have depth : v.depth = 0 + 1 := by rw [ht.depth_eq, saved]; rfl
  have busy : v.connection.isIdle = false := by simp [Connection.isIdle, tv]
  rw [rollback, result_bind, result_get]
  simp [depth, busy, result_bind, result_connect, Connection.rollback, tv, closeLevels]

/-- A rollback of an inner level goes back to its savepoint and releases it. -/
theorem rollback_inner (tv : v.connection.transaction = some t) (ht : t.Orderly v.depth)
    (saved : t.saved = (level, db) :: outer) : rollback.result v = (.ok (), { v with
      connection := { v.connection with
        handle := v.connection.handle.goBack t.view db
        transaction := some { t with view := db, saved := outer } }
      depth := level }) := by
  obtain ⟨number, depth⟩ := ht.depth_saved saved
  have busy : v.connection.isIdle = false := by simp [Connection.isIdle, tv]
  rw [number] at saved depth ⊢
  have undone : (do (← v.connection.rollbackTo (outer.length + 1)).release (outer.length + 1))
      = Except.ok { v.connection with
          handle := v.connection.handle.goBack t.view db
          transaction := some { t with view := db, saved := outer } } := by
    simp [Connection.rollbackTo, Connection.release, tv, Connection.savedFrom, saved, ht.opened, Bind.bind, Except.bind]
  rw [rollback, result_bind, result_get]
  simp only [depth, busy, Bool.false_eq_true, if_false, Nat.add_one_ne_zero, rollbackSavepoint, result_bind,
    result_attempt, result_connect, undone, result_modify]

end

/-- A commit of a level makes what was done in it a change of what it was opened on. -/
theorem commit_opened (hw : w.Orderly) (hv : v.Orderly) (below : v.base = w.opened) :
    (commit.result v).1 = .ok () ∧ (commit.result v).2.Orderly ∧ (commit.result v).2.base = w.base
      ∧ (commit.result v).2.current = v.current := by
  obtain ⟨t, tv, ht, eq⟩ := transaction_of_opened hv below
  have seen : v.current = t.view := by simp [current, tv]
  unfold Orderly at hw
  cases tw : w.connection.transaction with
  | none =>
    simp only [opened, tw, Option.some.injEq, Prod.mk.injEq] at eq
    rw [commit_outermost tv ht eq.2.1, seen]
    simp [Orderly, base, tw, current, Connection.close, ht.writes]
  | some u =>
    simp only [opened, tw, Option.some.injEq, Prod.mk.injEq] at eq hw
    obtain ⟨snapshot, saved, contents⟩ := eq
    rw [commit_inner tv ht saved, seen]
    exact ⟨rfl, ⟨hw.depth_eq, hw.levels_eq, ht.writes, ht.opened, ht.pinned⟩, by simp [base, tw, snapshot, contents], rfl⟩

/-- A rollback of a level gives back what it was opened on. -/
theorem rollback_opened (hw : w.Orderly) (hv : v.Orderly) (below : v.base = w.opened) :
    (rollback.result v).1 = .ok () ∧ (rollback.result v).2.Orderly ∧ (rollback.result v).2.base = w.base
      ∧ (rollback.result v).2.current = w.current := by
  obtain ⟨t, tv, ht, eq⟩ := transaction_of_opened hv below
  unfold Orderly at hw
  cases tw : w.connection.transaction with
  | none =>
    simp only [opened, tw, Option.some.injEq, Prod.mk.injEq] at eq
    rw [rollback_outermost tv ht eq.2.1]
    simp [Orderly, base, tw, current, Connection.abandon, ht.writes, eq.2.2]
  | some u =>
    simp only [opened, tw, Option.some.injEq, Prod.mk.injEq] at eq hw
    obtain ⟨snapshot, saved, contents⟩ := eq
    rw [rollback_inner tv ht saved]
    exact ⟨rfl, ⟨hw.depth_eq, hw.levels_eq, ht.writes, ht.opened, ht.pinned⟩, by simp [base, tw, snapshot, contents],
      by simp [current, tw]⟩

theorem commitTo_done {level : Nat} (h : v.depth ≤ level) (fuel : Nat) :
    (commitTo level fuel).result v = (.ok (), v) := by
  cases fuel with
  | zero => rfl
  | succ fuel => simp [commitTo, result_bind, Nat.not_lt.2 h]

theorem unwindTo_done {level : Nat} (h : v.depth ≤ level) (cause : StoreError) (fuel : Nat) :
    (unwindTo level cause fuel).result v = (.ok (), v) := by
  cases fuel with
  | zero => rfl
  | succ fuel => simp [unwindTo, result_bind, Nat.not_lt.2 h]

/-- The levels that are open are told by what lies below. -/
theorem depth_of_base (hv : v.Orderly) (hw : w.Orderly) (below : v.base = w.base) : v.depth = w.depth := by
  unfold Orderly at hv hw
  unfold base at below
  cases tv : v.connection.transaction with
  | none =>
    cases tw : w.connection.transaction with
    | none =>
      simp only [tv, tw] at hv hw
      rw [hv, hw]
    | some u => simp [tv, tw] at below
  | some t =>
    cases tw : w.connection.transaction with
    | none => simp [tv, tw] at below
    | some u =>
      simp only [tv, tw, Option.map_some, Option.some.injEq, Prod.mk.injEq] at below hv hw
      rw [hv.depth_eq, hw.depth_eq, below.2.1]

/-- A level that has been opened on a workspace is committed at once. -/
theorem commitTo_eq (hw : w.Orderly) (hv : v.Orderly) (below : v.base = w.opened) :
    (commitTo w.depth v.depth).result v = (.ok (), (commit.result v).2) := by
  have depth := hv.depth_opened hw below
  obtain ⟨ok, orderly, base, -⟩ := commit_opened hw hv below
  rw [depth, commitTo, result_bind, result_depth]
  simp only [depth, Nat.lt_add_one, if_true, result_bind]
  rw [show commit.result v = ((commit.result v).1, (commit.result v).2) from rfl, ok]
  exact commitTo_done (Nat.le_of_eq (depth_of_base orderly hw base)) w.depth

/-- A level that has been opened on a workspace is rolled back at once. -/
theorem unwindTo_eq (hw : w.Orderly) (hv : v.Orderly) (below : v.base = w.opened) (cause : StoreError) :
    (unwindTo w.depth cause v.depth).result v = (.ok (), (rollback.result v).2) := by
  have depth := hv.depth_opened hw below
  obtain ⟨ok, orderly, base, -⟩ := rollback_opened hw hv below
  rw [depth, unwindTo, result_bind, result_depth]
  simp only [depth, Nat.lt_add_one, if_true, result_bind, result_attempt]
  rw [ok]
  exact unwindTo_done (Nat.le_of_eq (depth_of_base orderly hw base)) cause w.depth

theorem commitTo_opened (hw : w.Orderly) (hv : v.Orderly) (below : v.base = w.opened) :
    ((commitTo w.depth v.depth).result v).1 = .ok () ∧ ((commitTo w.depth v.depth).result v).2.Orderly
      ∧ ((commitTo w.depth v.depth).result v).2.base = w.base
      ∧ ((commitTo w.depth v.depth).result v).2.current = v.current := by
  obtain ⟨-, orderly, base, current⟩ := commit_opened hw hv below
  rw [commitTo_eq hw hv below]
  exact ⟨rfl, orderly, base, current⟩

theorem unwindTo_opened (hw : w.Orderly) (hv : v.Orderly) (below : v.base = w.opened) (cause : StoreError) :
    Same ((unwindTo w.depth cause v.depth).result v).2 w := by
  obtain ⟨-, orderly, base, current⟩ := rollback_opened hw hv below
  rw [unwindTo_eq hw hv below]
  exact .of_base orderly hw base current

end Action

end Dossier
