import Dossier.Proofs.Session.Orderly

/-!
# What actions do to the database

`Action.Spec` says of an action what it does to the current database, and that it leaves the levels below as
they are. There is one rule for each way to make an action; `Action.Spec.transaction` is the one for an action
in a level of its own. Inside a transaction no other connection holds the lock, so there a statement fails only
by itself.
-/

namespace Dossier.Action

open Workspace

variable {inside : Prop} {α β : Type}

/-- Over orderly workspaces of which the current database is as `P` says, with an open transaction if the action
is said to run `inside` one, the action ends as `Q` says of its outcome and the database after it, and it leaves
what lies below as it is. -/
def Spec (inside : Prop) (P : Database → Prop) (a : Action α) (Q : Except StoreError α → Database → Prop) : Prop :=
  ∀ w : Workspace, w.Orderly → (inside → w.base.isSome) → P w.current →
    (a.result w).2.Orderly ∧ (a.result w).2.base = w.base ∧ Q (a.result w).1 (a.result w).2.current

namespace Spec

variable {P P' : Database → Prop} {Q Q' R : Except StoreError α → Database → Prop}
variable {S : Except StoreError β → Database → Prop} {a : Action α} {f : α → Action β}

theorem mono (h : Spec inside P a Q) (pre : ∀ db, P' db → P db) (post : ∀ r db, Q r db → Q' r db) : Spec inside P' a Q' :=
  fun w orderly within start =>
    have ⟨orderly', base, done⟩ := h w orderly within (pre _ start)
    ⟨orderly', base, post _ _ done⟩

theorem bind (first : Spec inside P a Q) (next : ∀ x, Spec inside (Q (.ok x)) (f x) S)
    (failed : ∀ e db, Q (.error e) db → S (.error e) db) : Spec inside P (a >>= f) S := by
  intro w orderly within start
  obtain ⟨orderly', base, done⟩ := first w orderly within start
  rw [result_bind]
  cases made : a.result w with
  | mk r v =>
    rw [made] at orderly' base done
    cases r with
    | error e => exact ⟨orderly', base, failed e _ done⟩
    | ok x =>
      obtain ⟨orderly'', base', done'⟩ := next x v orderly' (by rwa [base]) done
      exact ⟨orderly'', base'.trans base, done'⟩

theorem map (h : Spec inside P a Q) (g : α → β) (post : ∀ r db, Q r db → S (r.map g) db) : Spec inside P (g <$> a) S := by
  intro w orderly within start
  obtain ⟨orderly', base, done⟩ := h w orderly within start
  rw [result_map]
  exact ⟨orderly', base, post _ _ done⟩

/-- An action that leaves the workspace the same. -/
theorem of_same (h : ∀ w, w.Orderly → Same (a.result w).2 w)
    (post : ∀ w : Workspace, w.Orderly → P w.current → Q (a.result w).1 w.current) : Spec inside P a Q := by
  intro w orderly within start
  have same := h w orderly
  exact ⟨same.orderly orderly, same.base, by rw [same.current]; exact post w orderly start⟩

theorem pure (x : α) (post : ∀ db, P db → Q (.ok x) db) : Spec inside P (Pure.pure x : Action α) Q :=
  of_same (fun w _ => .refl w) fun w _ => post w.current

theorem throw (e : StoreError) (post : ∀ db, P db → Q (.error e) db) : Spec inside P (MonadExcept.throw e : Action α) Q :=
  of_same (fun w _ => .refl w) fun w _ => post w.current

theorem ofRequest (r : Except CompileError α) (post : ∀ db, P db → Q (r.mapError .compile) db) :
    Spec inside P (Action.ofRequest r) Q :=
  of_same (fun w _ => by rw [result_ofRequest]; exact .refl w) fun w _ start => by
    rw [result_ofRequest]; exact post _ start

theorem ofChange (r : Except ApplyError α) (post : ∀ db, P db → Q (r.mapError .apply) db) :
    Spec inside P (Action.ofChange r) Q :=
  of_same (fun w _ => by rw [result_ofChange]; exact .refl w) fun w _ start => by
    rw [result_ofChange]; exact post _ start

theorem ofStore (r : Except StoreError α) (post : ∀ db, P db → Q r db) : Spec inside P (Action.ofStore r) Q :=
  of_same (fun w _ => by rw [result_ofStore]; exact .refl w) fun w _ start => by
    rw [result_ofStore]; exact post _ start

theorem report {Q : Except StoreError Unit → Database → Prop} (e : Event) (post : ∀ db, P db → Q (.ok ()) db) :
    Spec inside P (Action.report e) Q :=
  of_same (fun _ _ => ⟨rfl, rfl, rfl⟩) fun w _ => post w.current

theorem nextId {Q : Except StoreError String → Database → Prop} (post : ∀ id db, P db → Q (.ok id) db) :
    Spec inside P Action.nextId Q :=
  of_same (fun _ _ => ⟨rfl, rfl, rfl⟩) fun w _ => post _ w.current

theorem now {Q : Except StoreError Int → Database → Prop} (post : ∀ time db, P db → Q (.ok time) db) :
    Spec inside P Action.now Q :=
  of_same (fun _ _ => ⟨rfl, rfl, rfl⟩) fun w _ => post _ w.current

theorem attempt {T : Except StoreError (Except StoreError α) → Database → Prop} (h : Spec inside P a Q)
    (post : ∀ r db, Q r db → T (.ok r) db) : Spec inside P (Action.attempt a) T := by
  intro w orderly within start
  obtain ⟨orderly', base, done⟩ := h w orderly within start
  rw [result_attempt]
  exact ⟨orderly', base, post _ _ done⟩

theorem read {g : Database → Except EngineError α} (post : ∀ db, P db → Q ((g db).mapError .ofEngine) db) :
    Spec inside P (Action.read g) Q :=
  of_same (fun w orderly => (read_spec orderly g).2) fun w orderly start => by
    rw [(read_spec orderly g).1]; exact post _ start

theorem write {g : Database → Except EngineError (α × Database)}
    (made : ∀ db x db', P db → g db = .ok (x, db') → Q (.ok x) db')
    (failed : ∀ e db, P db → (inside → ∃ e', g db = .error e' ∧ e = .ofEngine e') → Q (.error e) db) :
    Spec inside P (Action.write g) Q := by
  intro w orderly within start
  rcases write_spec orderly g with ⟨e, eq, own⟩ | ⟨x, db, eq, ok, orderly', base, current⟩
  · rw [eq]
    exact ⟨orderly, rfl, failed e _ start fun h => own (within h)⟩
  · exact ⟨orderly', base, by rw [ok, current]; exact made _ _ _ start eq⟩

theorem alter {Q : Except StoreError Unit → Database → Prop} {g : Database → Except EngineError Database}
    (made : ∀ db db', P db → g db = .ok db' → Q (.ok ()) db')
    (failed : ∀ e db, P db → (inside → ∃ e', g db = .error e' ∧ e = .ofEngine e') → Q (.error e) db) :
    Spec inside P (Action.alter g) Q := by
  refine write (fun db x db' start eq => made db db' start ?_) fun e db start own => failed e db start fun h => ?_
  · cases h : g db <;> simp_all [Except.map]
  · obtain ⟨e', eq, same⟩ := own h
    refine ⟨e', ?_, same⟩
    cases h : g db <;> simp_all [Except.map]

/-- An action in a level of its own changes the database as it says, or fails and changes nothing. Inside a
transaction it fails only if the action itself does. -/
theorem transaction {db : Database} (h : Spec True (· = db) a Q) (made : ∀ x db', Q (.ok x) db' → Q' (.ok x) db')
    (failed : ∀ e, (inside → ∃ db', Q (.error e) db') → Q' (.error e) db) :
    Spec inside (· = db) (Action.transaction a) Q' := by
  intro w orderly within start
  rw [result_transaction]
  rcases begin_spec orderly with ⟨e, eq, closed⟩ | ⟨ok, opens, below, current⟩
  · rw [eq]
    refine ⟨orderly, rfl, start ▸ failed e fun h => ?_⟩
    simp [closed] at within
    exact (within h).elim
  · cases begun : begin.result w with
    | mk r v =>
      rw [begun] at ok opens below current
      obtain rfl : r = .ok () := ok
      have entry : v.depth - 1 = w.depth := by rw [opens.depth_opened orderly below]; rfl
      have open_ : v.base.isSome := by rw [below]; unfold opened; cases w.connection.transaction <;> rfl
      obtain ⟨orderly', base, done⟩ := h v opens (fun _ => open_) (current.trans start)
      simp only [entry]
      cases ran : a.result v with
      | mk r u =>
        rw [ran] at orderly' base done
        have under : u.base = w.opened := base.trans below
        cases r with
        | error e =>
          have same := unwindTo_opened orderly orderly' under e
          exact ⟨same.orderly orderly, same.base, by rw [same.current, start]; exact failed e fun _ => ⟨_, done⟩⟩
        | ok x =>
          obtain ⟨fine, closed, bottom, seen⟩ := commitTo_opened orderly orderly' under
          simp only
          rw [show (commitTo w.depth u.depth).result u
            = (((commitTo w.depth u.depth).result u).1, ((commitTo w.depth u.depth).result u).2) from rfl, fine]
          exact ⟨closed, bottom, by rw [seen]; exact made x _ done⟩

end Spec

end Dossier.Action
