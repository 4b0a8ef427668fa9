import Dossier.Session.Basic

/-!
# Nested transactions

The outermost level of a session is a transaction of the engine, each inner one a savepoint.
`commit` and `rollback` close the innermost level. `transaction` runs an action in a level of its
own: when the action succeeds, that level and all that it left open are committed; when it fails,
they are rolled back, and its error is the error of the whole.
-/

namespace Dossier.Action

/-- Opens a level. -/
def begin : Action Unit := do
  let level ← depth
  if level = 0 then
    connect Connection.begin
    modify fun w => { w with depth := 1, active := w.active + 1 }
  else
    connect fun c => .ok (c.savepoint level)
    modify fun w => { w with depth := level + 1 }

/-- Closes all levels of the session's own count. -/
def closeLevels : Action Unit := modify fun w =>
  if 0 < w.depth then { w with depth := 0, active := w.active - 1 } else w

/-- Commits the innermost level. When the engine refuses, the level stays open. -/
def commit : Action Unit := do
  match ← depth with
  | 0 => throw (.transactionState .commit)
  | 1 =>
    connect Connection.commit
    closeLevels
  | level + 2 =>
    connect fun c => c.release (level + 1)
    modify fun w => { w with depth := level + 1 }

/-- Goes back to the innermost savepoint and releases it. When the engine refuses, the whole
transaction is rolled back. -/
def rollbackSavepoint (level : Nat) : Action Unit := do
  let outcome ← attempt (connect fun c => do (← c.rollbackTo level).release level)
  match outcome with
  | .ok () => modify fun w => { w with depth := level }
  | .error e =>
    modify fun w => { w with connection := w.connection.reset }
    closeLevels
    throw e

/-- Rolls the innermost level back. The level is closed even when the engine refuses. -/
def rollback : Action Unit := do
  let w ← get
  match w.depth with
  | 0 => throw (.transactionState .rollback)
  | level + 1 =>
    if w.connection.isIdle then closeLevels
    else if level = 0 then
      connect Connection.rollback
      closeLevels
    else rollbackSavepoint level

/-- Commits levels until at most `level` are open; `fuel` is the number of levels to close. -/
def commitTo (level : Nat) : (fuel : Nat) → Action Unit
  | 0 => return
  | fuel + 1 => do
    if level < (← depth) then
      commit
      commitTo level fuel

/-- Rolls levels back until at most `level` are open, and reports the rollbacks that fail. -/
def unwindTo (level : Nat) (cause : StoreError) : (fuel : Nat) → Action Unit
  | 0 => return
  | fuel + 1 => do
    if level < (← depth) then
      match ← attempt rollback with
      | .ok () => pure ()
      | .error _ => report (.rollbackFailed cause)
      unwindTo level cause fuel

/-- Runs a step, which says what it made and whether it failed, in a level of its own. The answer is
what the step made, unless the level could not be opened, and the error of the whole. -/
def scope (step : StateM Workspace (α × Option StoreError)) :
    StateM Workspace (Option α × Option StoreError) := do
  match ← ExceptT.run begin with
  | .error e => return (none, some e)
  | .ok () =>
    let entry := (← get).depth - 1
    let (a, failure) ← step
    let failure ← match failure with
      | some e => pure (some e)
      | none =>
        match ← ExceptT.run (commitTo entry (← get).depth) with
        | .ok () => pure none
        | .error e => pure (some e)
    match failure with
    | none => return (some a, none)
    | some e =>
      let _ ← ExceptT.run (unwindTo entry e (← get).depth)
      return (some a, some e)

/-- Runs an action in a level of its own. -/
def transaction (a : Action α) : Action α := do
  let step : StateM Workspace (Option α × Option StoreError) := do
    match ← ExceptT.run a with
    | .ok x => return (some x, none)
    | .error e => return (none, some e)
  match ← ExceptT.lift (scope step) with
  | (some (some x), none) => return x
  | (_, some e) => throw e
  | _ => throw .closed

/-- Ends the session: an open transaction is rolled back, and reported if the session had opened
it. -/
def finish : Action Unit := do
  let levels ← depth
  modify fun w => { w with connection := w.connection.reset }
  if 0 < levels then
    report (.sessionDropped levels)
    closeLevels

end Dossier.Action
