import Dossier.Proofs.Outcome
import Dossier.Proofs.Session.Spec
import Dossier.Proofs.Session.Still

/-!
# What actions that succeed leave

`Action.Yields db a R`: run inside a transaction on the database, the action, if it does not fail, makes something and
leaves a database that are as `R` says. Failures say nothing here; inside a transaction they leave no trace.
`Action.Succeeds db a x after`: run inside a transaction on the database, the action does not fail, makes `x` and leaves `after`.
-/

namespace Dossier.Action

open Outcome

variable {α β : Type} {a : Action α} {f : α → Action β} {db : Database} {R : α → Database → Prop}
variable {S : β → Database → Prop}

/-- Run inside a transaction on the database, the action, if it does not fail, makes something and leaves a
database that are as `R` says. -/
def Yields (db : Database) (a : Action α) (R : α → Database → Prop) : Prop :=
  Spec True (· = db) a fun r after => ∀ x, r = .ok x → R x after

/-- A sequence succeeds if both steps do. -/
theorem result_bind_eq_ok {w v : Workspace} {y : β} :
    (a >>= f).result w = (.ok y, v) ↔ ∃ x u, a.result w = (.ok x, u) ∧ (f x).result u = (.ok y, v) := by
  rw [result_bind]
  cases a.result w with
  | mk r u => cases r <;> simp [and_assoc]

namespace Yields

theorem bind (first : Yields db a R) (next : ∀ x mid, R x mid → Yields mid (f x) S) : Yields db (a >>= f) S := by
  refine Spec.bind first (fun x => ?_) fun _ _ _ _ => nofun
  intro w orderly within made
  exact next x w.current (made x rfl) w orderly within rfl

theorem mono {R' : α → Database → Prop} (h : Yields db a R) (post : ∀ x after, R x after → R' x after) :
    Yields db a R' :=
  Spec.mono h (fun _ h => h) fun _ _ done x eq => post _ _ (done x eq)

theorem pure (x : α) : Yields db (Pure.pure x : Action α) fun y after => y = x ∧ after = db :=
  Spec.pure x fun _ same _ eq => ⟨(Except.ok.inj eq).symm, same⟩

theorem throw (e : StoreError) : Yields db (MonadExcept.throw e : Action α) R := Spec.throw e fun _ _ _ => nofun

theorem ofRequest (r : Except CompileError α) : Yields db (Action.ofRequest r) fun x after => r = .ok x ∧ after = db :=
  Spec.ofRequest r fun _ same x eq => ⟨by cases r <;> cases eq; rfl, same⟩

theorem read (g : Database → Except EngineError α) :
    Yields db (Action.read g) fun x after => g db = .ok x ∧ after = db :=
  Spec.read fun _ same x eq => by
    subst same
    cases h : g _ with
    | error e => rw [h] at eq; cases eq
    | ok y => rw [h] at eq; cases eq; exact ⟨rfl, rfl⟩

theorem alter (g : Database → Except EngineError Database) : Yields db (Action.alter g) fun _ after => g db = .ok after :=
  Spec.alter (fun _ _ same eq _ _ => same ▸ eq) fun _ _ _ _ _ => nofun

theorem map (h : Yields db a R) (g : α → β) (post : ∀ x after, R x after → S (g x) after) : Yields db (g <$> a) S :=
  Spec.map h g fun _ after done _ eq =>
    have ⟨x, made, same⟩ := map_eq_ok.1 eq
    same ▸ post x after (done x made)

theorem ofChange (r : Except ApplyError α) : Yields db (Action.ofChange r) fun x after => r = .ok x ∧ after = db :=
  Spec.ofChange r fun _ same _ eq => ⟨eq_ok_of_mapError eq, same⟩

theorem ofStore (r : Except StoreError α) : Yields db (Action.ofStore r) fun x after => r = .ok x ∧ after = db :=
  Spec.ofStore r fun _ same _ eq => ⟨eq, same⟩

theorem now : Yields db Action.now fun _ after => after = db := Spec.now fun _ _ same _ _ => same

theorem nextId : Yields db Action.nextId fun _ after => after = db := Spec.nextId fun _ _ same _ _ => same

section
variable {name : CollectionName} {r : Resolver}

/-- A statement that gives rows leaves the database as it is. -/
theorem rows (s : Statement .rows) : Yields db (Action.execute name r s : Action (List Row)) fun rows after =>
    (∃ last, db.run name r s = .ok (rows, last)) ∧ after = db := by
  have answers : Yields db (Action.read fun db => (db.run name r s).map (·.1) : Action (List Row)) fun rows after =>
      (∃ last, db.run name r s = .ok (rows, last)) ∧ after = db :=
    (read _).mono fun rows after ⟨eq, same⟩ => by
      obtain ⟨p, ran, rfl⟩ := map_eq_ok.1 eq
      exact ⟨⟨p.2, ran⟩, same⟩
  exact answers

/-- A statement that gives a number leaves the database as it is. -/
theorem number (s : Statement .number) : Yields db (Action.execute name r s : Action Int) fun n after =>
    (∃ last, db.run name r s = .ok (n, last)) ∧ after = db := by
  have answers : Yields db (Action.read fun db => (db.run name r s).map (·.1) : Action Int) fun n after =>
      (∃ last, db.run name r s = .ok (n, last)) ∧ after = db :=
    (read _).mono fun n after ⟨eq, same⟩ => by
      obtain ⟨p, ran, rfl⟩ := map_eq_ok.1 eq
      exact ⟨⟨p.2, ran⟩, same⟩
  exact answers

/-- A statement that writes. -/
theorem changed (s : Statement .changed) : Yields db (Action.execute name r s : Action Nat) fun n after =>
    db.run name r s = .ok (n, after) :=
  Spec.write (g := fun db => db.run name r s) (fun _ _ _ same ran _ eq => Except.ok.inj eq ▸ same ▸ ran)
    fun _ _ _ _ _ eq => by cases eq

end

/-- In a level of its own an action that succeeds leaves what it leaves inside one. -/
theorem result_transaction {w v : Workspace} {x : α} (h : Yields w.current a R) (orderly : w.Orderly)
    (made : (Action.transaction a).result w = (.ok x, v)) : v.Orderly ∧ v.base = w.base ∧ R x v.current := by
  have level : Spec False (· = w.current) (Action.transaction a) fun r after => ∀ x, r = .ok x → R x after :=
    Spec.transaction h (fun _ _ done => done) fun _ _ _ eq => by cases eq
  obtain ⟨after, base, done⟩ := level w orderly False.elim rfl
  rw [made] at after base done
  exact ⟨after, base, done x rfl⟩

/-- A transaction that succeeds has given back the lock that it took. -/
theorem unlocked_of_transaction {w v : Workspace} {x : α} (h : Yields w.current a R) (orderly : w.Orderly)
    (made : (Action.transaction a).result w = (.ok x, v)) : v.Unlocked := by
  rcases begin_spec orderly with ⟨e, eq, -⟩ | ⟨ok, hu, below, current⟩
  · rw [Action.result_transaction, eq] at made
    cases made
  · obtain ⟨framed, base, -⟩ := h _ hu (fun _ => by rw [below]; exact Workspace.opened_isSome w) current
    rw [result_transaction_of_begun orderly (Prod.ext ok rfl) hu below a framed base] at made
    obtain ⟨outcome, rfl⟩ := Prod.mk.inj made
    rw [outcome]
    exact unlocked_commit orderly framed (base.trans below)

end Yields

/-- Run inside a transaction on the database, the action does not fail, makes `x` and leaves `after`. -/
def Succeeds (db : Database) (a : Action α) (x : α) (after : Database) : Prop :=
  Spec True (· = db) a fun r last => r = .ok x ∧ last = after

namespace Succeeds

variable {x : α} {y : β} {mid after : Database}

theorem bind (first : Succeeds db a x mid) (next : Succeeds mid (f x) y after) : Succeeds db (a >>= f) y after := by
  refine Spec.bind first (fun x' => ?_) fun e _ ⟨failed, _⟩ => nomatch failed
  intro w orderly within ⟨made, here⟩
  obtain rfl := Except.ok.inj made
  exact next w orderly within here

theorem yields (h : Succeeds db a x after) : Yields db a fun y last => y = x ∧ last = after :=
  Spec.mono h (fun _ h => h) fun _ _ done _ eq => ⟨Except.ok.inj (eq.symm.trans done.1), done.2⟩

theorem pure (x : α) : Succeeds db (Pure.pure x : Action α) x db := Spec.pure x fun _ same => ⟨rfl, same⟩

theorem ofRequest {r : Except CompileError α} (made : r = .ok x) : Succeeds db (Action.ofRequest r) x db :=
  Spec.ofRequest r fun _ same => ⟨by rw [made]; rfl, same⟩

/-- What succeeds alike at every time succeeds at the time that the clock shows. -/
theorem now_bind {f : Int → Action β} (later : ∀ time, Succeeds db (f time) y after) :
    Succeeds db (Action.now >>= f) y after :=
  Spec.bind (Q := fun r last => r.isOk ∧ last = db) (Spec.now fun _ _ same => ⟨rfl, same⟩)
    (fun time => (later time).mono (fun _ read => read.2) fun _ _ done => done) fun _ _ failed => nomatch failed.1

theorem read {g : Database → Except EngineError α} (made : g db = .ok x) : Succeeds db (Action.read g) x db :=
  Spec.read fun _ same => by
    subst same
    exact ⟨by rw [made]; rfl, rfl⟩

theorem alter {g : Database → Except EngineError Database} (made : g db = .ok after) : Succeeds db (Action.alter g) () after := by
  refine Spec.alter ?_ ?_
  · rintro _ last rfl eq
    exact ⟨rfl, Except.ok.inj (eq.symm.trans made)⟩
  · rintro _ _ rfl own
    obtain ⟨_, failed, -⟩ := own trivial
    cases made.symm.trans failed

/-- In a level of its own an action does what it does inside one, unless another connection holds the lock. -/
theorem result_transaction {w : Workspace} (h : Succeeds w.current a x after) (orderly : w.Orderly) (unlocked : w.Unlocked) :
    ∃ v, (Action.transaction a).result w = (.ok x, v) ∧ v.base = w.base ∧ v.current = after := by
  obtain ⟨u, hu, below, current, -, -, level⟩ := exists_level (α := α) orderly unlocked
  obtain ⟨framed, base, made, last⟩ := h u hu (fun _ => by rw [below]; exact Workspace.opened_isSome w) current
  obtain ⟨v, ran, -, bottom, -, -, -, seen⟩ := level a framed base
  rw [made] at ran seen
  exact ⟨v, ran, bottom, seen.trans last⟩

end Succeeds

end Dossier.Action
