import Dossier.Proofs.Session.Counting
import Dossier.Store.Basic

/-!
# Accounts of the pool

The counters of a store agree with its sessions, whatever these do and however they take turns: `Store.Accounts` says so of
a store while the sessions of a list are at work, and each operation of the store keeps it (`Store.Leads`). The steps in
which stores move (`Store.Move`) are small: a transaction that a session runs may be cut anywhere, since to close levels is
a step of its own. `Store.accounts_of_moves` puts together what the counters, the next session and the next pass of
maintenance are after any number of moves.
-/

namespace Dossier

/-! ## The pool -/

namespace Pool

variable {p p' : Pool} {f : File} {handle : Handle} {size lent : Nat}

/-- A pool of the size has lent out so many connections, and has no more open than its size; a closed one keeps none. -/
structure Sound (size lent : Nat) (p : Pool) : Prop where
  sized : p.size = size
  borrowed : p.borrowed = lent
  bounded : p.idle.length + p.borrowed ≤ size
  emptied : p.closed = true → p.idle = []

/-- A pool lends out a connection that waits, or opens one more. -/
theorem Sound.lend (h : p.Sound size lent) (given : p.lend? f = some (handle, p')) :
    lent < size ∧ p'.closed = p.closed ∧ p'.Sound size (lent + 1) := by
  obtain ⟨size_, borrowed, bounded, emptied⟩ := h
  unfold lend? at given
  split at given
  · rename_i waiting
    rw [waiting, List.length_cons, borrowed] at bounded
    cases given
    refine ⟨by omega, rfl, size_, congrArg (· + 1) borrowed, ?_, fun shut => ?_⟩
    · simp only [borrowed]
      omega
    · exact absurd (waiting.symm.trans (emptied shut)) (List.cons_ne_nil _ _)
  · rename_i waiting
    split at given
    · rename_i room
      rw [borrowed, size_] at room
      cases given
      refine ⟨room, rfl, size_, congrArg (· + 1) borrowed, ?_, emptied⟩
      simp only [waiting, borrowed, List.length_nil]
      omega
    · cases given

/-- A pool has no connection left where all of its size are lent out. -/
theorem Sound.lend?_eq_none (h : p.Sound size lent) : p.lend? f = none ↔ size ≤ lent := by
  obtain ⟨size_, borrowed, bounded, -⟩ := h
  unfold lend?
  split
  · rename_i waiting
    rw [waiting, List.length_cons, borrowed] at bounded
    simp
    omega
  · rw [borrowed, size_]
    split <;> simp <;> omega

theorem Sound.release (h : p.Sound size (lent + 1)) (handle : Handle) : (p.release handle).Sound size lent := by
  obtain ⟨size_, borrowed, bounded, -⟩ := h
  refine ⟨size_, by simp [Pool.release, borrowed], ?_, fun shut => ?_⟩
  · rw [borrowed] at bounded
    simp only [Pool.release, borrowed]
    split
    · simp only [List.length_nil]
      omega
    · simp only [List.length_cons]
      omega
  · simp [Pool.release, show p.closed = true from shut]

theorem Sound.close (h : p.Sound size lent) : p.close.Sound size lent where
  sized := h.sized
  borrowed := h.borrowed
  bounded := Nat.le_trans (Nat.add_le_add_right (Nat.zero_le _) _) h.bounded
  emptied _ := rfl

theorem acquire_of_closed (shut : p.closed = true) : p.acquire f = .error .closed := if_pos shut

theorem acquire_of_opened (opened : p.closed = false) :
    p.acquire f = match p.lend? f with
      | some lent => .ok lent
      | none => .error .exhausted := by rw [acquire, opened]; rfl

end Pool

namespace Store

/-! ## Operations -/

theorem run_bind_of_eq {α β : Type} {m : Operation α} {f : α → Operation β} {s s' : Store} {x : α} (ran : m.run s = (x, s')) :
    (m >>= f).run s = (f x).run s' := by
  rw [StateT.run_bind, ran]
  rfl

/-- From stores as `before` says the operation leads to an answer and a store as `after` says. -/
def Leads {α : Type} (m : Operation α) (before : Store → Prop) (after : α → Store → Prop) : Prop :=
  ∀ s, before s → after (m.run s).1 (m.run s).2

namespace Leads

variable {α β : Type} {m : Operation α} {f : α → Operation β} {before : Store → Prop} {M : α → Store → Prop}
  {after : β → Store → Prop}

theorem pure {x : α} {goal : α → Store → Prop} (h : ∀ s, before s → goal x s) : Leads (Pure.pure x) before goal := h

theorem bind (first : Leads m before M) (next : ∀ x, Leads (f x) (M x) after) : Leads (m >>= f) before after :=
  fun s h => next _ _ (first s h)

theorem get_bind {f : Store → Operation β} (next : ∀ s, before s → Leads (f s) (· = s) after) :
    Leads (get >>= f) before after := fun s h => next s h s rfl

theorem modify {g : Store → Store} {goal : Unit → Store → Prop} (h : ∀ s, before s → goal () (g s)) :
    Leads (modify g) before goal := h

theorem mono {before' : Store → Prop} {M' : α → Store → Prop} (h : Leads m before M) (pre : ∀ s, before' s → before s)
    (post : ∀ x s, M x s → M' x s) : Leads m before' M' := fun s hs => post _ _ (h s (pre s hs))

end Leads

/-! ## Accounts -/

/-- The sessions of the list that have a level open. -/
def openCount (l : List Session) : Nat := l.countP fun x => 0 < x.depth

theorem openCount_cons (x : Session) (l : List Session) :
    openCount (x :: l) = openCount l + if 0 < x.depth then 1 else 0 := by
  simp [openCount, List.countP_cons]

theorem openCount_perm {l l' : List Session} (h : l.Perm l') : openCount l = openCount l' := h.countP_eq _

/-- The counters agree with the sessions that the store keeps and those that are at work: one connection is borrowed for
each, and for each pass that has one, and each session that has a level open is counted. No more connections are open than the
settings allow. If the store has been closed, it is closed. -/
structure Accounts (settings : Settings) (closed : Prop) (working : List Session) (s : Store) : Prop where
  settings_eq : s.settings = settings
  names : (s.sessions.map (·.1)).Nodup
  active : s.active = openCount (s.sessions.map (·.2)) + openCount working
  pool : s.pool.Sound settings.poolSize (s.sessions.length + working.length + s.running.length)
  shut : closed → s.pool.closed = true

variable {settings : Settings} {closed : Prop} {working : List Session} {s : Store} {x : Session} {name : String}

theorem accounts_start (file : File) (ids : IdSource) (clock : Clock) :
    Accounts settings False [] (start settings file ids clock) where
  settings_eq := rfl
  names := List.nodup_nil
  active := rfl
  pool := ⟨rfl, rfl, Nat.zero_le _, fun _ => rfl⟩
  shut := False.elim

/-- What the accounts do not look at may change. -/
theorem Accounts.of_eq {s' : Store} (h : Accounts settings closed working s) (same : s'.settings = s.settings)
    (pool : s'.pool = s.pool) (sessions : s'.sessions = s.sessions) (active : s'.active = s.active)
    (running : s'.running = s.running) : Accounts settings closed working s' where
  settings_eq := same.trans h.settings_eq
  names := by rw [sessions]; exact h.names
  active := by rw [active, sessions]; exact h.active
  pool := by rw [pool, sessions, running]; exact h.pool
  shut := by rw [pool]; exact h.shut

theorem leads_report (e : Event) : Leads (report e) (Accounts settings closed working) fun _ => Accounts settings closed working :=
  Leads.modify fun _ h => h.of_eq rfl rfl rfl rfl rfl

/-! ## Names -/

/-- A session that has a name is the first of the sessions, and the others come after it, in another order. -/
theorem perm_without {l : List (String × Session)} (nodup : (l.map (·.1)).Nodup) {x : Session}
    (found : (l.find? fun e => e.1 = name).map (·.2) = some x) :
    l.Perm ((name, x) :: l.filter fun e => e.1 ≠ name) := by
  induction l with
  | nil => cases found
  | cons e rest ih =>
    obtain ⟨name', x'⟩ := e
    rw [List.map_cons, List.nodup_cons] at nodup
    by_cases same : name' = name
    · subst same
      simp only [List.find?_cons, decide_true, Option.map_some, Option.some.injEq] at found
      subst found
      have others : rest.filter (fun e => e.1 ≠ name') = rest := by
        refine List.filter_eq_self.2 fun e mem => ?_
        have : e.1 ≠ name' := fun eq => nodup.1 (by rw [← eq]; exact List.mem_map_of_mem (f := (·.1)) mem)
        simpa using this
      rw [List.filter_cons_of_neg (by simp), others]
    · simp only [List.find?_cons, same, decide_false] at found
      have := ih nodup.2 found
      rw [List.filter_cons_of_pos (by simpa using same)]
      exact (this.cons _).trans (List.Perm.swap _ _ _)

/-- The session of a name is taken out to be at work. -/
theorem Accounts.without (h : Accounts settings closed working s) (found : s.session? name = some x) :
    Accounts settings closed (x :: working) (s.without name) := by
  have perm := perm_without h.names found
  have counted := openCount_perm (perm.map (·.2))
  have length := perm.length_eq
  rw [List.map_cons, openCount_cons] at counted
  rw [List.length_cons] at length
  refine ⟨h.settings_eq, h.names.sublist (List.filter_sublist.map _), ?_, ?_, h.shut⟩
  · have active := h.active
    show s.active = openCount ((s.sessions.filter fun e => e.1 ≠ name).map (·.2)) + openCount (x :: working)
    rw [openCount_cons, active, counted]
    simp only
    omega
  · have pool := h.pool
    rw [length] at pool
    rw [List.length_cons, ← Nat.add_assoc, Nat.add_right_comm _ _ 1]
    exact pool

theorem session?_without (s : Store) (name : String) : (s.without name).session? name = none := by
  simp [session?, without]

theorem without_of_session? (missing : s.session? name = none) : s.without name = s := by
  have absent : ∀ e ∈ s.sessions, e.1 ≠ name := by
    intro e mem eq
    have := List.find?_eq_none.1 (Option.map_eq_none_iff.1 missing) e mem
    exact this (by simpa using eq)
  unfold without
  rw [List.filter_eq_self.2 fun e mem => by simpa using absent e mem]

/-- A session that was at work is kept under its name. -/
theorem Accounts.keep (h : Accounts settings closed (x :: working) (s.without name)) :
    Accounts settings closed working { s.without name with sessions := (name, x) :: (s.without name).sessions } where
  settings_eq := h.settings_eq
  names := by
    refine List.nodup_cons.2 ⟨fun mem => ?_, h.names⟩
    obtain ⟨e, kept, eq⟩ := List.mem_map.1 mem
    have := (List.mem_filter.1 kept).2
    exact absurd eq (by simpa using this)
  active := by
    have active := h.active
    rw [openCount_cons] at active
    rw [List.map_cons, openCount_cons]
    exact active.trans (by simp only; omega)
  pool := by
    have pool := h.pool
    rw [List.length_cons, ← Nat.add_assoc, Nat.add_right_comm _ _ 1] at pool
    exact pool
  shut := h.shut

/-! ## Sessions -/

theorem leads_keep (name : String) (x : Session) :
    Leads (keep name x) (fun s => Accounts settings closed (x :: working) (s.without name))
      fun _ s => Accounts settings closed working s :=
  Leads.modify fun _ h => h.keep

/-- The counter as the session at work sees it. -/
theorem Accounts.counted (h : Accounts settings closed (x :: working) s) :
    (s.workspace x).Counted (openCount (s.sessions.map (·.2)) + openCount working) := by
  have active := h.active
  rw [openCount_cons] at active
  unfold Workspace.Counted
  exact active.trans (Nat.add_assoc _ _ _).symm

/-- What a session does is in the accounts, if it keeps the count. -/
theorem leads_act {α : Type} {f : StateM Workspace α}
    (steps : ∀ n (w : Workspace), w.Counted n → (f.run w).2.Counted n) :
    Leads (act x f) (Accounts settings closed (x :: working)) fun r => Accounts settings closed (r.2 :: working) := by
  intro s h
  have after := steps _ _ h.counted
  refine ⟨h.settings_eq, h.names, ?_, h.pool, h.shut⟩
  unfold Workspace.Counted at after
  show (f.run (s.workspace x)).2.active = openCount _ + openCount (sessionOf (f.run (s.workspace x)).2 :: working)
  rw [after, openCount_cons, sessionOf]
  exact Nat.add_assoc _ _ _

/-! ## Passes of maintenance -/

/-- Passes touch nothing but the pool, and that only where it has a connection left. -/
structure Aside (s s' : Store) : Prop where
  file : s'.file = s.file
  sessions : s'.sessions = s.sessions
  active : s'.active = s.active
  full : s.pool.lend? s.file = none → s'.pool = s.pool ∧ s'.running = s.running
  accounts : ∀ {settings closed working}, Accounts settings closed working s → Accounts settings closed working s'

namespace Aside

variable {s s' s'' : Store}

theorem refl (s : Store) : Aside s s := ⟨rfl, rfl, rfl, fun _ => ⟨rfl, rfl⟩, id⟩

theorem trans (first : Aside s s') (second : Aside s' s'') : Aside s s'' where
  file := second.file.trans first.file
  sessions := second.sessions.trans first.sessions
  active := second.active.trans first.active
  full none_ := by
    obtain ⟨pool, running⟩ := first.full none_
    obtain ⟨pool', running'⟩ := second.full (by rw [pool, first.file, none_])
    exact ⟨pool'.trans pool, running'.trans running⟩
  accounts h := second.accounts (first.accounts h)

/-- What no account looks at may change. -/
theorem of_eq (settings : s'.settings = s.settings) (file : s'.file = s.file) (pool : s'.pool = s.pool)
    (sessions : s'.sessions = s.sessions) (active : s'.active = s.active) (running : s'.running = s.running) : Aside s s' :=
  ⟨file, sessions, active, fun _ => ⟨pool, running⟩, fun h => h.of_eq settings pool sessions active running⟩

end Aside

theorem aside_report (e : Event) (s : Store) : Aside s ((report e).run s).2 := .of_eq rfl rfl rfl rfl rfl rfl

/-- A pass goes on after its beginning if no session has a level open and the store is open, and is left out otherwise. -/
theorem beginPass_cases (s : Store) :
    (∃ s', beginPass.run s = (some .skipped, s') ∧ Aside s s' ∧ (s.active ≠ 0 ∨ s.pool.closed = true))
      ∨ beginPass.run s = (none, { s with waiting := s.waiting + 1 }) ∧ s.active = 0 ∧ s.pool.closed = false := by
  unfold beginPass
  simp only [StateT.run_bind, StateT.run_get, pure_bind]
  split
  · exact .inl ⟨_, rfl, aside_report _ s, .inl (by omega)⟩
  · split
    · rename_i shut
      exact .inl ⟨_, rfl, aside_report _ s, .inr shut⟩
    · rename_i quiet shut
      exact .inr ⟨rfl, by omega, by simpa using shut⟩

/-- A pass that waits gets a connection if one is left, whatever the sessions do meanwhile. -/
theorem takePass_cases (s : Store) :
    (takePass.run s = (none, s) ∧ (s.waiting = 0 ∨ s.pool.lend? s.file = none))
      ∨ ∃ handle pool, s.pool.lend? s.file = some (handle, pool) ∧ s.waiting ≠ 0 ∧ takePass.run s
        = (some handle, { s with pool, waiting := s.waiting - 1, running := handle :: s.running }) := by
  unfold takePass
  simp only [StateT.run_bind, StateT.run_get, pure_bind]
  cases waiting : s.waiting with
  | zero => exact .inl ⟨rfl, .inl rfl⟩
  | succ n =>
    cases lent : s.pool.lend? s.file with
    | none => exact .inl ⟨rfl, .inr rfl⟩
    | some p => exact .inr ⟨p.1, p.2, rfl, Nat.succ_ne_zero n, rfl⟩

theorem aside_takePass (s : Store) : Aside s (takePass.run s).2 := by
  obtain ⟨ran, -⟩ | ⟨handle, pool, lent, -, ran⟩ := takePass_cases s
  · rw [ran]
    exact .refl s
  · rw [ran]
    refine ⟨rfl, rfl, rfl, fun left => (Option.some_ne_none _ (lent.symm.trans left)).elim, fun h => ?_⟩
    obtain ⟨-, closed, sound⟩ := h.pool.lend lent
    exact ⟨h.settings_eq, h.names, h.active, sound, fun shut => closed.trans (h.shut shut)⟩

theorem aside_abandonPass (s : Store) : Aside s (abandonPass.run s).2 := .of_eq rfl rfl rfl rfl rfl rfl

theorem finishPass_same (handle : Handle) (s : Store) : ((finishPass handle).run s).2.file = s.file
    ∧ ((finishPass handle).run s).2.sessions = s.sessions ∧ ((finishPass handle).run s).2.active = s.active := by
  unfold finishPass
  simp only [StateT.run_bind, StateT.run_get, pure_bind]
  split
  · exact ⟨rfl, rfl, rfl⟩
  · exact ⟨rfl, rfl, rfl⟩

/-- A pass ends: its connection comes back. -/
theorem Accounts.finishPass (h : Accounts settings closed working s) {handle : Handle} (runs : handle ∈ s.running) :
    Accounts settings closed working ((Store.finishPass handle).run s).2
      ∧ ((Store.finishPass handle).run s).1 ≠ .skipped := by
  have length : s.running.length = (s.running.erase handle).length + 1 := by
    rw [List.length_erase_of_mem runs]
    exact (Nat.sub_add_cancel (List.length_pos_of_mem runs)).symm
  have back (handle' : Handle) : Accounts settings closed working
      { s with pool := s.pool.release handle', running := s.running.erase handle } := by
    have pool := h.pool
    rw [length, ← Nat.add_assoc] at pool
    exact ⟨h.settings_eq, h.names, h.active, pool.release handle', h.shut⟩
  unfold Store.finishPass
  simp only [StateT.run_bind, StateT.run_get, pure_bind]
  split
  · exact ⟨(aside_report _ _).accounts (back _), fun eq => by cases eq⟩
  · exact ⟨(aside_report _ _).accounts (back _), fun eq => by cases eq⟩

/-- A pass that takes a connection and ends. -/
theorem aside_finishPass {handle : Handle} {pool : Pool} (lent : s.pool.lend? s.file = some (handle, pool)) {waiting : Nat}
    {worker : Worker} :
    Aside s ((finishPass handle).run { s with pool, waiting, running := handle :: s.running, worker }).2 := by
  have same := finishPass_same handle { s with pool, waiting, running := handle :: s.running, worker }
  refine ⟨same.1, same.2.1, same.2.2, fun left => (Option.some_ne_none _ (lent.symm.trans left)).elim, fun h => ?_⟩
  obtain ⟨-, closed, sound⟩ := h.pool.lend lent
  have taken : Accounts _ _ _ { s with pool, waiting, running := handle :: s.running, worker } :=
    ⟨h.settings_eq, h.names, h.active, sound, fun shut => closed.trans (h.shut shut)⟩
  exact (taken.finishPass (List.mem_cons_self ..)).1

theorem aside_serve (s : Store) : Aside s (serve.run s).2 := by
  unfold serve
  simp only [StateT.run_bind, StateT.run_get, pure_bind]
  split
  · rename_i interval left _
    obtain ⟨ran, -⟩ | ⟨handle, pool, lent, -, ran⟩ := takePass_cases s
    · rw [run_bind_of_eq ran]
      exact .refl s
    · rw [run_bind_of_eq ran]
      exact aside_finishPass lent
  · exact .refl s

theorem aside_tick (s : Store) : Aside s (tick.run s).2 := by
  unfold tick
  simp only [StateT.run_bind, StateT.run_get, pure_bind]
  split
  · exact .refl s
  · exact .of_eq rfl rfl rfl rfl rfl rfl
  · rename_i interval _
    obtain ⟨s', ran, aside, -⟩ | ⟨ran, -⟩ := beginPass_cases s
    · rw [run_bind_of_eq ran]
      exact aside.trans (.of_eq rfl rfl rfl rfl rfl rfl)
    · rw [run_bind_of_eq ran]
      have served := aside_serve { s with waiting := s.waiting + 1, worker := .waiting interval Maintenance.patience }
      refine Aside.trans ?_ served
      exact .of_eq rfl rfl rfl rfl rfl rfl
  · exact .of_eq rfl rfl rfl rfl rfl rfl
  · exact .of_eq rfl rfl rfl rfl rfl rfl

theorem aside_wait (milliseconds : Nat) (s : Store) : Aside s ((wait milliseconds).run s).2 := by
  induction milliseconds generalizing s with
  | zero => exact .refl s
  | succ n ih =>
    unfold wait
    simp only [StateT.run_bind, StateT.run_get, pure_bind]
    split
    · exact (aside_tick s).trans (ih _)
    · exact .refl s

theorem aside_stopWorker (s : Store) : Aside s (stopWorker.run s).2 := by
  unfold stopWorker
  simp only [StateT.run_bind, StateT.run_get, pure_bind]
  split
  · exact .of_eq rfl rfl rfl rfl rfl rfl
  · exact .of_eq rfl rfl rfl rfl rfl rfl

/-- An operation of passes keeps the accounts. -/
theorem leads_of_aside {α : Type} {m : Operation α} (aside : ∀ s, Aside s (m.run s).2) {working : List Session} :
    Leads m (Accounts settings closed working) fun _ => Accounts settings closed working :=
  fun s h => (aside s).accounts h

/-- A pass that is made in one go does its work if and only if no session has a level open, the pool has a connection left and
the store is open. -/
theorem Accounts.maintain (h : Accounts settings closed working s) :
    Accounts settings closed working (Store.maintain.run s).2
      ∧ ((Store.maintain.run s).1 ≠ .skipped ↔ s.active = 0
        ∧ s.sessions.length + working.length + s.running.length < settings.poolSize ∧ s.pool.closed = false) := by
  unfold Store.maintain
  obtain ⟨s', ran, aside, hindered⟩ | ⟨ran, idle, opened⟩ := beginPass_cases s
  · rw [run_bind_of_eq ran]
    refine ⟨aside.accounts h, fun worked => absurd rfl worked, fun free => ?_⟩
    exact (hindered.elim (· free.1) fun shut => Bool.false_ne_true (free.2.2.symm.trans shut)).elim
  · have h' : Accounts settings closed working { s with waiting := s.waiting + 1 } := h.of_eq rfl rfl rfl rfl rfl
    rw [run_bind_of_eq ran]
    obtain ⟨none_, why⟩ | ⟨handle, pool, lent, -, took⟩ := takePass_cases { s with waiting := s.waiting + 1 }
    · have none' : s.pool.lend? s.file = none := why.resolve_left (Nat.succ_ne_zero _)
      have full := h.pool.lend?_eq_none.1 none'
      have waited := aside_wait Maintenance.patience { s with waiting := s.waiting + 1 }
      cases ran' : (wait Maintenance.patience).run { s with waiting := s.waiting + 1 } with
      | mk u s' =>
      rw [ran'] at waited
      rw [run_bind_of_eq none_, run_bind_of_eq ran']
      have still : s'.pool.lend? s'.file = none := by rw [(waited.full none').1, waited.file, none']
      obtain ⟨again, -⟩ | ⟨handle, pool, lent, -⟩ := takePass_cases s'
      · rw [run_bind_of_eq again]
        exact ⟨(aside_abandonPass s').accounts (waited.accounts h'), fun worked => absurd rfl worked, fun free => by omega⟩
      · rw [still] at lent
        cases lent
    · obtain ⟨room, still, sound⟩ := h'.pool.lend lent
      rw [run_bind_of_eq took]
      have taken : Accounts settings closed working { s with pool, running := handle :: s.running } :=
        ⟨h.settings_eq, h.names, h.active, sound, fun shut => still.trans (h.shut shut)⟩
      obtain ⟨after, worked⟩ := taken.finishPass (List.mem_cons_self ..)
      exact ⟨after, fun _ => ⟨idle, room, opened⟩, fun _ => worked⟩

/-! ## Sessions that begin and end -/

/-- A connection comes back from a session without open levels. -/
theorem Accounts.takeBack (h : Accounts settings closed (x :: working) s) (ended : x.depth = 0) (handle : Handle) :
    Accounts settings closed working { s with pool := s.pool.release handle } := by
  have active := h.active
  have pool := h.pool
  rw [openCount_cons, ended] at active
  rw [List.length_cons, ← Nat.add_assoc, Nat.add_right_comm _ 1] at pool
  exact ⟨h.settings_eq, h.names, active, pool.release handle, h.shut⟩

/-- A session that has ended gives its connection back. -/
theorem leads_finish (x : Session) :
    Leads (finish x) (Accounts settings closed (x :: working)) fun _ => Accounts settings closed working := fun s h =>
  have acted := leads_act (f := ExceptT.run Action.finish) (fun n w counted => Action.Counting.finish n w counted) s h
  (aside_serve _).accounts (acted.takeBack (Action.depth_finish (s.workspace x)) _)

theorem session?_finish (x : Session) (s : Store) : ((finish x).run s).2.session? name = s.session? name := by
  have sessions : ((finish x).run s).2.sessions = s.sessions := (aside_serve _).sessions
  rw [session?, sessions, session?]

/-- A session begins where the pool has a connection. Where it has none, nothing is counted. -/
theorem Accounts.acquire (h : Accounts settings closed working s) :
    (∃ x s', Store.acquire.run s = (.ok x, s') ∧ s.pool.closed = false
        ∧ s.sessions.length + working.length + s.running.length < settings.poolSize ∧ x.depth = 0
        ∧ s'.sessions = s.sessions ∧ Accounts settings closed (x :: working) s')
      ∨ Store.acquire.run s = (.error .closed, s) ∧ s.pool.closed = true
      ∨ (∃ s', Store.acquire.run s = (.error (.poolTimeout settings.acquireTimeout), s') ∧ s.pool.closed = false
        ∧ settings.poolSize ≤ s.sessions.length + working.length + s.running.length ∧ s'.pool = s.pool
        ∧ s'.sessions = s.sessions ∧ s'.active = s.active ∧ Accounts settings closed working s') := by
  unfold Store.acquire
  simp only [StateT.run_bind, StateT.run_get, pure_bind]
  cases shut : s.pool.closed with
  | true =>
    rw [Pool.acquire_of_closed shut]
    exact .inr (.inl ⟨rfl, rfl⟩)
  | false =>
    rw [Pool.acquire_of_opened shut]
    cases lent : s.pool.lend? s.file with
    | some p =>
      obtain ⟨handle, pool⟩ := p
      obtain ⟨room, closed, sound⟩ := h.pool.lend lent
      refine .inl ⟨_, _, rfl, rfl, room, rfl, rfl, h.settings_eq, h.names, ?_, ?_, fun shut => closed.trans (h.shut shut)⟩
      · exact h.active.trans (by rw [openCount_cons]; rfl)
      · rw [List.length_cons, ← Nat.add_assoc, Nat.add_right_comm _ 1]
        exact sound
    | none =>
      have waited := aside_wait s.settings.acquireTimeout s
      rw [h.settings_eq] at waited ⊢
      refine .inr (.inr ⟨_, rfl, rfl, h.pool.lend?_eq_none.1 lent, (waited.full lent).1, waited.sessions, waited.active, ?_⟩)
      exact (aside_report _ _).accounts (waited.accounts h)

/-- A session begins and is at work, or the accounts stay as they are. -/
theorem leads_acquire (P : List (String × Session) → Prop) : Leads acquire
    (fun s => Accounts settings closed working s ∧ P s.sessions) fun r s => P s.sessions ∧ match r with
      | .ok x => Accounts settings closed (x :: working) s
      | .error _ => Accounts settings closed working s := by
  rintro s ⟨h, sessions⟩
  obtain ⟨x, s', ran, -, -, -, same, after⟩ | ⟨ran, -⟩ | ⟨s', ran, -, -, -, same, -, after⟩ := h.acquire
  · rw [ran]
    exact ⟨same ▸ sessions, after⟩
  · rw [ran]
    exact ⟨sessions, h⟩
  · rw [ran]
    exact ⟨same ▸ sessions, after⟩

theorem leads_release (name : String) : Leads (release name) (Accounts settings closed working)
    fun _ s => Accounts settings closed working s ∧ s.session? name = none := by
  refine Leads.get_bind fun s h => ?_
  cases found : s.session? name with
  | none => exact Leads.pure fun _ eq => eq ▸ ⟨h, found⟩
  | some x =>
    refine Leads.bind (M := fun _ s => Accounts settings closed (x :: working) s ∧ s.session? name = none) ?_ fun _ => ?_
    · exact Leads.modify fun _ eq => eq ▸ ⟨h.without found, session?_without s name⟩
    · exact Leads.bind (M := fun _ s => Accounts settings closed working s ∧ s.session? name = none)
        (fun s h => ⟨leads_finish x s h.1, session?_finish x s ▸ h.2⟩) fun _ => Leads.pure fun _ h => h

theorem leads_replace (name : String) : Leads (replace name) (Accounts settings closed working)
    fun _ => Accounts settings closed working := by
  refine Leads.bind ((leads_acquire fun _ => True).mono (fun _ h => ⟨h, trivial⟩) fun _ _ h => h) fun r => ?_
  cases r with
  | error e => exact Leads.pure fun _ h => h.2
  | ok x =>
    refine Leads.bind ((leads_release name).mono (fun _ h => h.2) fun _ _ h => h) fun _ => ?_
    refine Leads.bind ((leads_keep name x).mono (fun s h => ?_) fun _ _ h => h) fun _ => Leads.pure fun _ h => h
    rw [without_of_session? h.2]
    exact h.1

/-- A session at work that replies and is kept. -/
theorem leads_reply {request : Request} (x : Session) : Leads (do
      let (reply, x) ← act x request.run
      keep name x
      return reply : Operation Reply) (fun s => Accounts settings closed (x :: working) (s.without name))
      fun _ s => Accounts settings closed working s := by
  have acts : Leads (act x request.run) (fun s => Accounts settings closed (x :: working) (s.without name))
      fun r s => Accounts settings closed (r.2 :: working) (s.without name) := fun s h =>
    leads_act (fun _ _ counted => request.counted_run counted) (s.without name) h
  exact acts.bind fun r => (leads_keep name r.2).bind fun _ => Leads.pure fun _ h => h

theorem leads_call (name : String) (request : Request) : Leads (call name request) (Accounts settings closed working)
    fun _ => Accounts settings closed working := by
  refine Leads.get_bind fun s h => ?_
  cases found : s.session? name with
  | some x => exact (leads_reply x).mono (fun _ eq => eq ▸ h.without found) fun _ _ h => h
  | none =>
    have absent : s.sessions.filter (fun e => e.1 ≠ name) = s.sessions := congrArg Store.sessions (without_of_session? found)
    refine Leads.bind ((leads_acquire fun l => l.filter (fun e => e.1 ≠ name) = l).mono
      (fun s' eq => by rw [eq]; exact ⟨h, absent⟩) fun _ _ h => h) fun r => ?_
    cases r with
    | error e => exact Leads.pure fun _ h => h.2
    | ok x =>
      refine (leads_reply x).mono (fun s h => ?_) fun _ _ h => h
      obtain ⟨others, h⟩ := h
      have same : s.without name = s := by rw [without, others]
      rw [same]
      exact h

/-- A session that does one thing and ends. -/
theorem leads_inSession {block : StateM Workspace (Option (List Reply) × Option StoreError)}
    (steps : ∀ n (w : Workspace), w.Counted n → (block.run w).2.Counted n) :
    Leads (inSession block) (Accounts settings closed working) fun _ => Accounts settings closed working := by
  refine Leads.bind ((leads_acquire fun _ => True).mono (fun _ h => ⟨h, trivial⟩) fun _ _ h => h) fun r => ?_
  cases r with
  | error e => exact Leads.pure fun _ h => h.2
  | ok x =>
    exact ((leads_act steps).mono (fun _ h => h.2) fun _ _ h => h).bind fun r =>
      (leads_finish r.2).bind fun _ => Leads.pure fun _ h => h

/-! ## The store as a whole -/

theorem leads_close : Leads close (Accounts settings closed working) fun _ => Accounts settings True working := by
  refine (leads_of_aside aside_stopWorker).bind fun _ => Leads.get_bind fun s h => ?_
  cases shut : s.pool.closed with
  | true => exact Leads.pure fun _ eq => eq ▸ { h with shut := fun _ => shut }
  | false =>
    refine Leads.bind (M := fun _ => Accounts settings True working) (Leads.modify fun _ eq => ?_) fun _ => leads_report _
    rw [eq]
    exact ⟨h.settings_eq, h.names, h.active, h.pool.close, fun _ => rfl⟩

/-! ## Moves -/

/-- A step of a store: what a session does is cut into its parts, and so is a pass of maintenance, so that they take turns in any
way. A session may close levels down to one that it had, as at the end of a transaction. -/
inductive Move
  | acquire (name : String)
  | release (name : String)
  | call (name : String) (request : Request)
  | commitTo (name : String) (level : Nat)
  | unwindTo (name : String) (level : Nat) (cause : StoreError)
  | transaction (requests : List Request) (failure : Option String) (keepGoing : Bool)
  | withSession (requests : List Request) (failure : Option String) (keepGoing : Bool)
  | maintain
  | beginPass
  | takePass
  | abandonPass
  | finishPass (place : Nat)
  | tick
  | close

/-- Lets the session of a name do something, if there is one. -/
def inNamed (name : String) (a : Action Unit) : Operation Unit := do
  match (← get).session? name with
  | none => return
  | some x =>
    let (_, x) ← act x (ExceptT.run a)
    keep name x

/-- Makes a move. -/
def Move.run : Move → Operation Unit
  | .acquire name => do let _ ← replace name
  | .release name => do let _ ← Store.release name
  | .call name request => do let _ ← Store.call name request
  | .commitTo name level => inNamed name do Action.commitTo level (← Action.depth)
  | .unwindTo name level cause => inNamed name do Action.unwindTo level cause (← Action.depth)
  | .transaction requests failure keepGoing => do
    let _ ← inSession (Action.scope (Request.runBlock requests failure keepGoing))
  | .withSession requests failure keepGoing => do
    let _ ← inSession do
      let (replies, failure) ← Request.runBlock requests failure keepGoing
      return (some replies, failure)
  | .maintain => do let _ ← Store.maintain
  | .beginPass => do let _ ← Store.beginPass
  | .takePass => do let _ ← Store.takePass
  | .abandonPass => do let _ ← Store.abandonPass
  | .finishPass place => do
    if let some handle := (← get).running[place]? then
      let _ ← Store.finishPass handle
  | .tick => do let _ ← Store.tick
  | .close => Store.close

theorem leads_inNamed (name : String) {a : Action Unit} (counting : Action.Counting a) :
    Leads (inNamed name a) (Accounts settings closed []) fun _ => Accounts settings closed [] := by
  refine Leads.get_bind fun s h => ?_
  cases found : s.session? name with
  | none => exact Leads.pure fun _ eq => eq ▸ h
  | some x =>
    have acts : Leads (act x (ExceptT.run a)) (fun s => Accounts settings closed [x] (s.without name))
        fun r s => Accounts settings closed [r.2] (s.without name) := fun s h =>
      leads_act (f := ExceptT.run a) (fun n w counted => counting n w counted) (s.without name) h
    exact Leads.bind (acts.mono (fun _ eq => eq ▸ h.without found) fun _ _ h => h) fun r => leads_keep name r.2

theorem leads_move (move : Move) : Leads move.run (Accounts settings closed []) fun _ => Accounts settings closed [] := by
  have drop : ∀ {α : Type} {m : Operation α}, Leads m (Accounts settings closed []) (fun _ => Accounts settings closed []) →
      Leads (do let _ ← m) (Accounts settings closed []) fun _ => Accounts settings closed [] := fun h => h
  cases move with
  | acquire name => exact drop (leads_replace name)
  | release name => exact drop ((leads_release name).mono (fun _ h => h) fun _ _ h => h.1)
  | call name request => exact drop (leads_call name request)
  | commitTo name level =>
    exact leads_inNamed name ((Action.Counting.of_depth).bind fun levels => .commitTo level levels)
  | unwindTo name level cause =>
    exact leads_inNamed name ((Action.Counting.of_depth).bind fun levels => .unwindTo level cause levels)
  | transaction requests failure keepGoing =>
    exact drop (leads_inSession fun n w counted =>
      Action.Counting.scope (fun n v hv => Request.counted_runBlock requests failure keepGoing hv) counted)
  | withSession requests failure keepGoing =>
    exact drop (leads_inSession fun n w counted => Request.counted_runBlock requests failure keepGoing counted)
  | maintain => exact drop fun s h => h.maintain.1
  | beginPass =>
    refine drop (leads_of_aside fun s => ?_)
    obtain ⟨s', ran, aside, -⟩ | ⟨ran, -⟩ := beginPass_cases s
    · rw [ran]
      exact aside
    · rw [ran]
      exact .of_eq rfl rfl rfl rfl rfl rfl
  | takePass => exact drop (leads_of_aside aside_takePass)
  | abandonPass => exact drop (leads_of_aside aside_abandonPass)
  | finishPass place =>
    refine Leads.get_bind fun s h => ?_
    split
    · rename_i handle found
      exact fun s' eq => eq ▸ (h.finishPass (List.mem_of_getElem? found)).1
    · exact Leads.pure fun _ eq => eq ▸ h
  | tick => exact drop (leads_of_aside aside_tick)
  | close =>
    have closes := @leads_close settings closed []
    exact fun s h => { closes s h with shut := fun _ => (closes s h).shut trivial }

/-- Any number of moves keeps the accounts. -/
theorem leads_moves (moves : List Move) :
    Leads (moves.forM Move.run) (Accounts settings closed []) fun _ => Accounts settings closed [] := by
  induction moves with
  | nil => exact Leads.pure fun _ h => h
  | cons move rest ih => exact (leads_move move).bind fun _ => ih

/-- A store that is closed stays closed. -/
theorem closed_of_moves {moves : List Move} (closes : .close ∈ moves) (h : Accounts settings closed [] s) :
    ((moves.forM Move.run).run s).2.pool.closed = true := by
  induction moves generalizing s closed with
  | nil => cases closes
  | cons move rest ih =>
    rcases List.mem_cons.1 closes with rfl | later
    · exact (leads_moves rest _ (leads_close s h)).shut trivial
    · exact ih later (leads_move move s h)

/-- In a store that has made any moves, the counter of transactions is the number of sessions with an open level. While it
is open, its connections are those that wait and those of the sessions and the passes, never more than the settings allow, and
another session begins if and only if one is left; when none is, the counters stay as they are. Once it has been closed no session
begins. A pass goes on after its beginning if and only if no session has a level open then and the store is open, and gets a
connection if and only if one is left at that time. One that is made in one go, between which no session does anything, does its
work if and only if no session has a level open, a connection is left and the store is open. -/
theorem accounts_of_moves (settings : Settings) (file : File) (ids : IdSource) (clock : Clock) (moves : List Move) {s : Store}
    (made : ((moves.forM Move.run).run (start settings file ids clock)).2 = s) :
    s.status.active = (s.sessions.filter fun e => 0 < e.2.depth).length
      ∧ (s.pool.closed = false → s.status.opened = s.status.idle + (s.sessions.length + s.running.length)
        ∧ s.status.opened ≤ settings.poolSize
        ∧ (s.sessions.length + s.running.length < settings.poolSize → ∃ x s', acquire.run s = (.ok x, s') ∧ x.depth = 0)
        ∧ (settings.poolSize ≤ s.sessions.length + s.running.length →
          ∃ s', acquire.run s = (.error (.poolTimeout settings.acquireTimeout), s')
          ∧ s'.status = s.status ∧ s'.sessions = s.sessions))
      ∧ (.close ∈ moves → acquire.run s = (.error .closed, s))
      ∧ ((beginPass.run s).1 = none ↔ (∀ e ∈ s.sessions, e.2.depth = 0) ∧ s.pool.closed = false)
      ∧ ((takePass.run s).1 ≠ none ↔ s.waiting ≠ 0 ∧ s.sessions.length + s.running.length < settings.poolSize)
      ∧ ((maintain.run s).1 ≠ .skipped ↔ (∀ e ∈ s.sessions, e.2.depth = 0)
        ∧ s.sessions.length + s.running.length < settings.poolSize ∧ s.pool.closed = false) := by
  subst made
  have start : Accounts settings False [] (start settings file ids clock) := accounts_start file ids clock
  have shut := fun closes : .close ∈ moves => closed_of_moves closes start
  have h := leads_moves moves _ start
  revert h shut
  generalize ((moves.forM Move.run).run (Store.start settings file ids clock)).2 = s
  intro shut h
  have sound : s.pool.Sound settings.poolSize (s.sessions.length + s.running.length) := h.pool
  have active : s.active = openCount (s.sessions.map (·.2)) := h.active
  have idle : s.active = 0 ↔ ∀ e ∈ s.sessions, e.2.depth = 0 := by
    rw [active, openCount, List.countP_eq_zero, List.forall_mem_map]
    simp only [decide_eq_true_eq, Nat.not_lt, Nat.le_zero]
  refine ⟨?_, fun opened => ⟨?_, ?_, fun room => ?_, fun full => ?_⟩, fun closes => ?_, ?_, ?_, ?_⟩
  · rw [status, Pool.status, active, openCount, List.countP_map, List.countP_eq_length_filter]
    rfl
  · simp [status, Pool.status, Pool.opened, opened, sound.borrowed]
  · simpa [status, Pool.status, Pool.opened, opened] using sound.bounded
  · obtain ⟨x, s', ran, -, -, depth, -⟩ | ⟨-, closed⟩ | ⟨s', -, -, full, -⟩ := h.acquire
    · exact ⟨x, s', ran, depth⟩
    · exact absurd (opened.symm.trans closed) (by decide)
    · exact absurd room (Nat.not_lt.2 full)
  · obtain ⟨x, s', -, -, room, -⟩ | ⟨-, closed⟩ | ⟨s', ran, -, -, pool, sessions, active, -⟩ := h.acquire
    · exact absurd room (Nat.not_lt.2 full)
    · exact absurd (opened.symm.trans closed) (by decide)
    · exact ⟨s', ran, by rw [status, pool, active, status], sessions⟩
  · obtain ⟨x, s', -, opened, -⟩ | ⟨ran, -⟩ | ⟨s', -, opened, -⟩ := h.acquire
    · exact absurd (opened.symm.trans (shut closes)) (by decide)
    · exact ran
    · exact absurd (opened.symm.trans (shut closes)) (by decide)
  · rw [← idle]
    obtain ⟨s', ran, -, hindered⟩ | ⟨ran, free⟩ := beginPass_cases s
    · rw [ran]
      refine ⟨fun eq => (by cases eq), fun ⟨quiet, opened⟩ => ?_⟩
      exact (hindered.elim (· quiet) fun shut => Bool.false_ne_true (opened.symm.trans shut)).elim
    · rw [ran]
      exact ⟨fun _ => free, fun _ => rfl⟩
  · rw [← Nat.not_le, ← sound.lend?_eq_none (f := s.file)]
    obtain ⟨ran, why⟩ | ⟨handle, pool, lent, waiting, ran⟩ := takePass_cases s
    · rw [ran]
      exact ⟨fun taken => absurd rfl taken, fun free => (why.elim free.1 free.2).elim⟩
    · rw [ran]
      exact ⟨fun _ => ⟨waiting, by rw [lent]; exact Option.some_ne_none _⟩, fun _ => Option.some_ne_none _⟩
  · rw [h.maintain.2, idle]
    rfl

/-- Settings of a store with two connections. -/
def twoConnections : Settings := ⟨"store.db", 5000, .wal, .full, 2, 5000, true, none⟩

/-- One session opens two levels and closes the inner one; the other cannot open any. -/
def taking : List Move :=
  [.call "a" .begin, .call "a" .begin, .call "b" .begin, .commitTo "a" 1]

/-- The store after that. -/
def taken : Store := ((taking.forM Move.run).run (start twoConnections .empty (.start fun _ => "") (.still 0))).2

theorem accounts_of_moves_taking : taken.status.active = 1 ∧ taken.status.opened = 2
    ∧ (∃ s', acquire.run taken = (.error (.poolTimeout 5000), s') ∧ s'.status = taken.status)
    ∧ (maintain.run taken).1 = .skipped := by
  have made : ((taking.forM Move.run).run (start twoConnections .empty (.start fun _ => "") (.still 0))).2 = taken := by rw [taken]
  obtain ⟨active, opened, -, -, -, maintained⟩ := accounts_of_moves _ _ _ _ taking made
  have counts : (taken.sessions.filter fun e => 0 < e.2.depth).length = 1 ∧ taken.sessions.length = 2
      ∧ taken.running.length = 0 ∧ taken.pool.closed = false ∧ taken.status.idle = 0 := by decide +kernel
  obtain ⟨levels, sessions, running, open_, idle⟩ := counts
  obtain ⟨connections, -, -, refused⟩ := opened open_
  rw [sessions, running] at connections refused maintained
  obtain ⟨s', ran, status, -⟩ := refused (Nat.le_refl 2)
  refine ⟨active.trans levels, ?_, ⟨s', ran, status⟩, ?_⟩
  · rw [connections, idle]
  · refine Decidable.byContradiction fun ran => ?_
    exact Nat.lt_irrefl 2 (maintained.1 ran).2.1

/-- A pass begins while two sessions have all connections and no level is open. Then one session opens a level, the other one
ends, and the pass gets its connection. -/
def overtaking : List Move := [.acquire "a", .acquire "b", .beginPass, .call "a" .begin, .release "b", .takePass]

/-- The store after that. -/
def overtaken : Store := ((overtaking.forM Move.run).run (start twoConnections .empty (.start fun _ => "") (.still 0))).2

/-- A pass that has begun runs its statements although a session has opened a transaction meanwhile; it does not look
again. -/
theorem maintained_in_transaction : overtaken.status.active = 1
    ∧ overtaken.running.map (fun handle => ((finishPass handle).run overtaken).1) = [.failed] := by decide +kernel

end Store

end Dossier
