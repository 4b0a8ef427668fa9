import Dossier.Proofs.Outcome
import Dossier.Proofs.Session.Spec

/-!
# What actions keep

`Action.Invariant P`: an action keeps `P` of the current database, and leaves the levels below it as they are. There is one
rule for each way to make an action. `Action.Gives P a R` says in addition that what the action gives, if it does not fail, is as
`R` says, and so carries what a step has found out to the steps after it.
-/

namespace Dossier

/-- The statements that write keep `P`. -/
def Database.Stable (P : Database → Prop) : Prop :=
  ∀ (db : Database) (name : CollectionName) (r : Resolver) (s : Statement .changed) (n : Nat) (after : Database),
    P db → db.run name r s = .ok (n, after) → P after

namespace Action

variable {inside : Prop} {P : Database → Prop} {α β : Type} {a : Action α} {f : α → Action β}

/-- The action keeps `P`, and it leaves what lies below as it is. -/
def Invariant (inside : Prop) (P : Database → Prop) (a : Action α) : Prop := Spec inside P a fun _ => P

namespace Invariant

theorem pure (x : α) : Invariant inside P (Pure.pure x : Action α) := Spec.pure x fun _ h => h

theorem throw (e : StoreError) : Invariant inside P (MonadExcept.throw e : Action α) := Spec.throw e fun _ h => h

theorem and {Q : Database → Prop} (h : Invariant inside P a) (h' : Invariant inside Q a) :
    Invariant inside (fun db => P db ∧ Q db) a := fun w orderly within start =>
  have ⟨orderly', base, kept⟩ := h w orderly within start.1
  ⟨orderly', base, kept, (h' w orderly within start.2).2.2⟩

theorem bind (first : Invariant inside P a) (next : ∀ x, Invariant inside P (f x)) : Invariant inside P (a >>= f) :=
  Spec.bind first next fun _ _ h => h

theorem map (g : α → β) (h : Invariant inside P a) : Invariant inside P (g <$> a) := Spec.map h g fun _ _ h => h

theorem ofRequest (r : Except CompileError α) : Invariant inside P (Action.ofRequest r) :=
  Spec.ofRequest r fun _ h => h

/-- What comes after a request that has been read need only keep `P` for what it was read as. -/
theorem ofRequest_bind {r : Except CompileError α} (next : ∀ x, r = .ok x → Invariant inside P (f x)) :
    Invariant inside P (Action.ofRequest r >>= f) := by
  intro w orderly within start
  rw [result_bind, result_ofRequest]
  cases r with
  | error e => exact ⟨orderly, rfl, start⟩
  | ok x => exact next x rfl w orderly within start

theorem ofStore (r : Except StoreError α) : Invariant inside P (Action.ofStore r) := Spec.ofStore r fun _ h => h

theorem report (e : Event) : Invariant inside P (Action.report e) := Spec.report e fun _ h => h

theorem nextId : Invariant inside P Action.nextId := Spec.nextId fun _ _ h => h

theorem now : Invariant inside P Action.now := Spec.now fun _ _ h => h

theorem attempt (h : Invariant inside P a) : Invariant inside P (Action.attempt a) := Spec.attempt h fun _ _ h => h

theorem read (g : Database → Except EngineError α) : Invariant inside P (Action.read g) := Spec.read fun _ h => h

theorem write {g : Database → Except EngineError (α × Database)}
    (made : ∀ db x after, P db → g db = .ok (x, after) → P after) : Invariant inside P (Action.write g) :=
  Spec.write made fun _ _ h _ => h

theorem alter {g : Database → Except EngineError Database} (made : ∀ db after, P db → g db = .ok after → P after) :
    Invariant inside P (Action.alter g) :=
  Spec.alter made fun _ _ h _ => h

theorem execute (stable : Database.Stable P) (name : CollectionName) (r : Resolver) {answer : Answer}
    (s : Statement answer) : Invariant inside P (Action.execute name r s) := by
  cases answer with
  | changed => exact write fun db n after h eq => stable db name r s n after h eq
  | rows | number =>
    rw [Action.execute_eq_read name r s (by decide)]
    exact read _

/-- What an action keeps inside a transaction, it keeps in one of its own. -/
theorem transaction (h : Invariant True P a) : Invariant inside P (Action.transaction a) := by
  intro w orderly within start
  have here : Spec True (· = w.current) a fun _ => P := Spec.mono h (fun _ eq => eq ▸ start) fun _ _ h => h
  have made : Spec inside (· = w.current) (Action.transaction a) fun _ => P :=
    Spec.transaction here (fun _ _ h => h) fun _ _ => start
  exact made w orderly within rfl

theorem mapM {g : α → Action β} (h : ∀ x, Invariant inside P (g x)) (l : List α) : Invariant inside P (l.mapM g) := by
  induction l with
  | nil => exact pure _
  | cons x rest ih =>
    rw [List.mapM_cons]
    exact (h x).bind fun _ => ih.bind fun _ => pure _

theorem forM {g : α → Action Unit} (h : ∀ x, Invariant inside P (g x)) (l : List α) :
    Invariant inside P (l.forM g) := by
  induction l with
  | nil => exact pure _
  | cons x rest ih => exact (h x).bind fun _ => ih

end Invariant

/-! ## What actions give -/

variable {R : α → Prop} {S : β → Prop}

/-- The action keeps `P`, and what it gives is as `R` says. -/
def Gives (inside : Prop) (P : Database → Prop) (a : Action α) (R : α → Prop) : Prop :=
  Spec inside P a fun r db => P db ∧ ∀ x, r = .ok x → R x

theorem Invariant.gives (h : Invariant inside P a) : Gives inside P a fun _ => True :=
  Spec.mono h (fun _ h => h) fun _ _ kept => ⟨kept, fun _ _ => trivial⟩

namespace Gives

theorem invariant (h : Gives inside P a R) : Invariant inside P a := Spec.mono h (fun _ h => h) fun _ _ done => done.1

theorem bind (first : Gives inside P a R) (next : ∀ x, R x → Gives inside P (f x) S) : Gives inside P (a >>= f) S := by
  refine Spec.bind first (fun x => ?_) fun e db done => ⟨done.1, by simp⟩
  intro w orderly within start
  exact next x (start.2 x rfl) w orderly within start.1

/-- What comes after an action knows what the action has given. -/
theorem andThen (first : Gives inside P a R) (next : ∀ x, R x → Invariant inside P (f x)) : Invariant inside P (a >>= f) :=
  (first.bind fun x known => (next x known).gives).invariant

theorem pure {x : α} (fine : R x) : Gives inside P (Pure.pure x : Action α) R :=
  Spec.pure x fun _ start => ⟨start, by simpa using fine⟩

theorem ofRequest {r : Except CompileError α} (fine : ∀ x, r = .ok x → R x) : Gives inside P (Action.ofRequest r) R :=
  Spec.ofRequest r fun _ start => ⟨start, fun x eq => fine x (Outcome.eq_ok_of_mapError eq)⟩

theorem ofChange {r : Except ApplyError α} (fine : ∀ x, r = .ok x → R x) : Gives inside P (Action.ofChange r) R :=
  Spec.ofChange r fun _ start => ⟨start, fun x eq => fine x (Outcome.eq_ok_of_mapError eq)⟩

theorem ofStore {r : Except StoreError α} (fine : ∀ x, r = .ok x → R x) : Gives inside P (Action.ofStore r) R :=
  Spec.ofStore r fun _ start => ⟨start, fine⟩

/-- The rows that a statement reads. -/
theorem rows {name : CollectionName} {r : Resolver} {s : Statement .rows} {R : List Row → Prop}
    (fine : ∀ db rows after, P db → db.run name r s = .ok (rows, after) → R rows) :
    Gives inside P (Action.execute name r s : Action (List Row)) R := by
  have read : Gives inside P (Action.read fun db => (db.run name r s).map (·.1) : Action (List Row)) R := by
    refine Spec.read fun db start => ⟨start, fun rows eq => ?_⟩
    cases ran : db.run name r s with
    | error e => rw [ran] at eq; cases eq
    | ok p =>
      rw [ran] at eq
      cases eq
      exact fine db p.1 p.2 start ran
  exact read

theorem mapM {g : α → Action β} {l : List α} (each : ∀ x ∈ l, Gives inside P (g x) S) :
    Gives inside P (l.mapM g) fun ys => ∀ y ∈ ys, S y := by
  induction l with
  | nil => exact pure (by simp)
  | cons x rest ih =>
    rw [List.mapM_cons]
    refine (each x List.mem_cons_self).bind fun y here => ?_
    refine (ih fun z mem => each z (List.mem_cons_of_mem _ mem)).bind fun ys later => ?_
    exact pure (List.forall_mem_cons.2 ⟨here, later⟩)

end Gives

namespace Invariant

theorem forM_mem {g : α → Action Unit} {l : List α} (each : ∀ x ∈ l, Invariant inside P (g x)) :
    Invariant inside P (l.forM g) := by
  induction l with
  | nil => exact pure _
  | cons x rest ih =>
    exact (each x List.mem_cons_self).bind fun _ => ih fun z mem => each z (List.mem_cons_of_mem _ mem)

theorem foldlM_mem {g : β → α → Action β} {l : List α} (each : ∀ x ∈ l, ∀ y, Invariant inside P (g y x)) (start : β) :
    Invariant inside P (l.foldlM g start) := by
  induction l generalizing start with
  | nil => exact pure _
  | cons x rest ih =>
    rw [List.foldlM_cons]
    exact (each x List.mem_cons_self start).bind fun next => ih (fun z mem => each z (List.mem_cons_of_mem _ mem)) next

end Invariant

end Action

end Dossier
