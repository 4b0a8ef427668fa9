import Dossier.Proofs.Session.Run
import Dossier.Store.Host

/-!
# What runs of a host keep

`Host.Good P`: `P` holds of every database on the disk and in the open store, in what its sessions see and in
what a rollback could bring back. `Host.good_callAll`: what all requests keep (`Kept`) holds of every host that
calls lead to.
-/

namespace Dossier

variable (P : Database → Prop)

/-! ## Stores -/

/-- The session's count of levels agrees with the engine, and `P` holds of what it sees and could go back to. -/
def Session.Good (x : Session) : Prop :=
  match x.transaction with
  | none => x.depth = 0
  | some t => t.Orderly x.depth ∧ P t.view ∧ ∀ s ∈ t.saved, P s.2

/-- `P` holds of all databases of the store, and its sessions are orderly. -/
structure Store.Good (s : Store) : Prop where
  contents : P s.file.contents
  sessions : ∀ e ∈ s.sessions, e.2.Good P

variable {P} {ok : String → CollectionRequest → Prop} {α : Type}

theorem Session.Good.map₂ {Q R : Database → Prop} (both : ∀ db, P db → Q db → R db) {x : Session} (h : x.Good P) (h' : x.Good Q) :
    x.Good R := by
  unfold Session.Good at *
  cases open_ : x.transaction with
  | none => simpa only [open_] using h
  | some t =>
    simp only [open_] at h h' ⊢
    exact ⟨h.1, both _ h.2.1 h'.2.1, fun s mem => both _ (h.2.2 s mem) (h'.2.2 s mem)⟩

namespace Store

open Dossier.Action

variable {s : Store} {x : Session}

theorem good_workspace (contents : P s.file.contents) (h : x.Good P) : (s.workspace x).Good P := by
  unfold Session.Good at h
  cases t : x.transaction with
  | none =>
    simp only [t] at h
    refine ⟨?_, ?_, ?_⟩
    · simp [Workspace.Orderly, workspace, t, h]
    · simpa [Workspace.current, workspace, t]
    · simp [Workspace.Below, Workspace.base, workspace, t]
  | some t' =>
    simp only [t] at h
    obtain ⟨orderly, view, saved⟩ := h
    refine ⟨?_, ?_, ?_⟩
    · simpa [Workspace.Orderly, workspace, t]
    · simpa [Workspace.current, workspace, t]
    · simp only [Workspace.Below, Workspace.base, workspace, t]
      rintro b ⟨⟩
      exact ⟨contents, saved⟩

theorem good_sessionOf {w : Workspace} (h : w.Good P) : (sessionOf w).Good P ∧ P w.connection.file.contents := by
  obtain ⟨orderly, current, below⟩ := h
  unfold Workspace.Orderly at orderly
  unfold Workspace.current at current
  unfold Workspace.base at below
  unfold Session.Good
  cases t : w.connection.transaction with
  | none =>
    simp only [t] at orderly current
    exact ⟨by simpa [sessionOf, t], current⟩
  | some t' =>
    simp only [t, Workspace.Below, Option.map_some] at orderly current below
    obtain ⟨contents, saved⟩ := below _ rfl
    refine ⟨?_, contents⟩
    simp only [sessionOf, t]
    exact ⟨orderly, current, saved⟩

variable (P) in
/-- The operation keeps a store good and answers as `R` says. -/
def Keeps (m : Operation α) (R : α → Prop) : Prop := ∀ s : Store, s.Good P → (m.run s).2.Good P ∧ R (m.run s).1

namespace Keeps

variable {β : Type} {m : Operation α} {f : α → Operation β} {R : α → Prop} {S : β → Prop}

theorem pure (x : α) (answer : R x) : Keeps P (Pure.pure x) R := fun _ h => ⟨h, answer⟩

theorem bind (first : Keeps P m R) (next : ∀ x, R x → Keeps P (f x) S) : Keeps P (m >>= f) S := fun s h =>
  have ⟨good, answer⟩ := first s h
  next _ answer _ good

theorem map (g : α → β) (h : Keeps P m R) : Keeps P (g <$> m) fun _ => True :=
  fun _ good => ⟨(h _ good).1, trivial⟩

end Keeps

theorem keeps_get : Keeps P (get : Operation Store) fun s => s.Good P := fun _ h => ⟨h, h⟩

theorem keeps_modify {g : Store → Store} (h : ∀ s, s.Good P → (g s).Good P) :
    Keeps P (modify g : Operation Unit) fun _ => True :=
  fun s good => ⟨h s good, trivial⟩

theorem keeps_set {s' : Store} (h : s'.Good P) : Keeps P (set s' : Operation PUnit) fun _ => True :=
  fun _ _ => ⟨h, trivial⟩

theorem keeps_report (e : Event) : Keeps P (report e) fun _ => True :=
  keeps_modify fun _ h => ⟨h.contents, h.sessions⟩

/-! ## Maintenance -/

theorem keeps_skip (reason : String) : Keeps P (skip reason) fun _ => True :=
  (keeps_report _).bind fun _ _ => .pure _ trivial

theorem keeps_beginPass : Keeps P beginPass fun _ => True := by
  refine keeps_get.bind fun s h => ?_
  split
  · exact (keeps_skip _).map _
  · split
    · exact (keeps_skip _).map _
    · exact Keeps.bind (keeps_set ⟨h.contents, h.sessions⟩) fun _ _ => .pure _ trivial

theorem keeps_takePass : Keeps P takePass fun _ => True := by
  refine keeps_get.bind fun s h => ?_
  split
  · exact Keeps.bind (keeps_set ⟨h.contents, h.sessions⟩) fun _ _ => .pure _ trivial
  · exact .pure _ trivial

theorem keeps_abandonPass : Keeps P abandonPass fun _ => True :=
  Keeps.bind (keeps_modify (g := fun s => { s with waiting := s.waiting - 1 }) fun _ h => ⟨h.contents, h.sessions⟩)
    fun _ _ => keeps_skip _

theorem keeps_finishPass (handle : Handle) : Keeps P (finishPass handle) fun _ => True := by
  refine keeps_get.bind fun s h => ?_
  simp only
  split
  · exact Keeps.bind (keeps_set ⟨h.contents, h.sessions⟩) fun _ _ => (keeps_report _).bind fun _ _ => .pure _ trivial
  · exact Keeps.bind (keeps_set ⟨h.contents, h.sessions⟩) fun _ _ => (keeps_report _).bind fun _ _ => .pure _ trivial

theorem keeps_worker (worker : Worker) : Keeps P (modify fun s => { s with worker } : Operation Unit) fun _ => True :=
  keeps_modify fun _ h => ⟨h.contents, h.sessions⟩

theorem keeps_serve : Keeps P serve fun _ => True := by
  refine keeps_get.bind fun s _ => ?_
  split
  · refine keeps_takePass.bind fun r _ => ?_
    cases r with
    | none => exact .pure _ trivial
    | some handle => exact (keeps_worker _).bind fun _ _ => (keeps_finishPass handle).map _
  · exact .pure _ trivial

theorem keeps_tick : Keeps P tick fun _ => True := by
  refine keeps_get.bind fun s _ => ?_
  split
  · exact .pure _ trivial
  · exact (keeps_worker _).bind fun _ _ => .pure _ trivial
  · refine keeps_beginPass.bind fun r _ => ?_
    cases r with
    | some outcome => exact (keeps_worker _).bind fun _ _ => .pure _ trivial
    | none => exact (keeps_worker _).bind fun _ _ => keeps_serve
  · exact (keeps_worker _).bind fun _ _ => .pure _ trivial
  · exact (keeps_worker _).bind fun _ _ => keeps_abandonPass.map _

theorem keeps_wait (milliseconds : Nat) : Keeps P (wait milliseconds) fun _ => True := by
  induction milliseconds with
  | zero => exact .pure _ trivial
  | succ n ih =>
    refine keeps_get.bind fun s _ => ?_
    split
    · exact keeps_tick.bind fun _ _ => ih
    · exact .pure _ trivial

theorem keeps_waitForPass (milliseconds : Nat) : Keeps P (waitForPass milliseconds) fun _ => True := by
  induction milliseconds with
  | zero => exact .pure _ trivial
  | succ n ih =>
    refine keeps_tick.bind fun r _ => ?_
    split
    · exact .pure _ trivial
    · exact ih

theorem keeps_awaitMaintenance : Keeps P awaitMaintenance fun _ => True := by
  refine keeps_get.bind fun s _ => ?_
  split
  · exact .pure _ trivial
  · exact keeps_waitForPass _
  · exact keeps_waitForPass _

theorem keeps_stopWorker : Keeps P stopWorker fun _ => True := by
  refine keeps_get.bind fun s _ => ?_
  split
  · exact keeps_abandonPass.bind fun _ _ => keeps_worker _
  · exact keeps_worker _

theorem keeps_maintain : Keeps P maintain fun _ => True := by
  refine keeps_beginPass.bind fun r _ => ?_
  cases r with
  | some outcome => exact .pure _ trivial
  | none =>
    refine keeps_takePass.bind fun r _ => ?_
    cases r with
    | some handle => exact keeps_finishPass handle
    | none =>
      refine (keeps_wait _).bind fun _ _ => keeps_takePass.bind fun r _ => ?_
      cases r with
      | some handle => exact keeps_finishPass handle
      | none => exact keeps_abandonPass

/-! ## Sessions of a store -/

/-- What a session does keeps the store good, and the session. -/
theorem keeps_act {f : StateM Workspace α} (steps : ∀ w : Workspace, w.Good P → (f.run w).2.Good P)
    (hx : x.Good P) : Keeps P (act x f) fun r => r.2.Good P := fun _ h =>
  have after := good_sessionOf (steps _ (good_workspace h.contents hx))
  ⟨⟨after.2, h.sessions⟩, after.1⟩

theorem keeps_finish (hx : x.Good P) : Keeps P (finish x) fun _ => True :=
  (keeps_act (fun _ => Action.good_finish) hx).bind fun r _ =>
    Keeps.bind (keeps_modify (g := fun s => { s with pool := s.pool.release r.2.handle }) fun _ h => ⟨h.contents, h.sessions⟩)
      fun _ _ => keeps_serve.bind fun _ _ => .pure _ trivial

theorem keeps_acquire : Keeps P acquire fun r => ∀ x, r = .ok x → x.Good P := by
  refine keeps_get.bind fun s h => ?_
  split
  · exact Keeps.bind (keeps_set ⟨h.contents, h.sessions⟩) fun _ _ =>
      .pure _ fun x eq => by cases eq; rfl
  · exact .pure _ fun x eq => by cases eq
  · exact (keeps_wait _).bind fun _ _ => (keeps_report _).bind fun _ _ => .pure _ fun x eq => by cases eq

theorem Good.session (h : s.Good P) {name : String} (found : s.session? name = some x) : x.Good P := by
  obtain ⟨e, he, rfl⟩ := Option.map_eq_some_iff.1 found
  exact h.sessions e (List.mem_of_find?_eq_some he)

theorem Good.without (h : s.Good P) (name : String) : (s.without name).Good P :=
  ⟨h.contents, fun e he => h.sessions e (List.mem_filter.1 he).1⟩

theorem keeps_keep (name : String) (hx : x.Good P) : Keeps P (keep name x) fun _ => True :=
  keeps_modify fun _ h => ⟨h.contents, List.forall_mem_cons.2 ⟨hx, (h.without name).sessions⟩⟩

theorem keeps_release (name : String) : Keeps P (release name) fun _ => True := by
  refine keeps_get.bind fun s h => ?_
  split
  · exact .pure _ trivial
  · exact (keeps_modify fun _ h => h.without name).bind fun _ _ =>
      (keeps_finish (h.session ‹_›)).bind fun _ _ => .pure _ trivial

theorem keeps_replace (name : String) : Keeps P (replace name) fun _ => True := by
  refine keeps_acquire.bind fun r good => ?_
  split
  · exact .pure _ trivial
  · exact (keeps_release name).bind fun _ _ => (keeps_keep name (good _ rfl)).bind fun _ _ => .pure _ trivial

/-- What a session replies, when there is one. -/
theorem keeps_reply (kept : KeptIn P ok) (name : String) {request : Request} (within : request.Confined ok)
    {session : Except StoreError Session} (good : ∀ x, session = .ok x → x.Good P) : Keeps P (do
      match session with
      | .error e => return .failed e
      | .ok x =>
        let (reply, x) ← act x request.run
        keep name x
        return reply : Operation Reply) fun _ => True := by
  cases session with
  | error e => exact .pure _ trivial
  | ok x =>
    exact (keeps_act (fun w hw => request.good_run kept within hw) (good x rfl)).bind fun r hr =>
      (keeps_keep name hr).bind fun _ _ => .pure _ trivial

theorem keeps_call (kept : KeptIn P ok) (name : String) {request : Request} (within : request.Confined ok) :
    Keeps P (call name request) fun _ => True := by
  refine keeps_get.bind fun s h => ?_
  split
  · exact (Keeps.pure (R := fun r => ∀ x, r = .ok x → x.Good P) _ fun x eq => by
      cases eq; exact h.session ‹_›).bind fun _ => keeps_reply kept name within
  · exact keeps_acquire.bind fun _ => keeps_reply kept name within

theorem keeps_inSession {block : StateM Workspace (Option (List Reply) × Option StoreError)}
    (steps : ∀ w : Workspace, w.Good P → (block.run w).2.Good P) : Keeps P (inSession block) fun _ => True := by
  refine keeps_acquire.bind fun r good => ?_
  split
  · exact .pure _ trivial
  · exact (keeps_act steps (good _ rfl)).bind fun r hr => (keeps_finish hr).bind fun _ _ => .pure _ trivial

/-! ## The store as a whole -/

theorem keeps_close : Keeps P close fun _ => True := by
  refine keeps_stopWorker.bind fun _ _ => keeps_get.bind fun s h => ?_
  split
  · exact Keeps.bind (keeps_modify (g := fun s => { s with pool := s.pool.close }) fun _ h => ⟨h.contents, h.sessions⟩)
      fun _ _ => keeps_report _
  · exact .pure _ trivial

theorem keeps_shutDown : Keeps P shutDown fun _ => True := by
  refine keeps_get.bind fun s h => ?_
  have each : ∀ names : List String, Keeps P (names.forM fun name => do let _ ← release name) fun _ => True := by
    intro names
    induction names with
    | nil => exact .pure _ trivial
    | cons name rest ih =>
      have one : Keeps P (do let _ ← release name) fun _ => True := (keeps_release name).bind fun _ _ => .pure _ trivial
      exact one.bind fun _ _ => ih
  exact (each _).bind fun _ _ => keeps_close

end Store

/-- A moment of a session of the store, one that it keeps or a new one, after calls that are as `ok` says. -/
def Store.Moment (ok : String → CollectionRequest → Prop) (s : Store) (w : Workspace) : Prop :=
  ∃ (x : Session) (requests : List Request), ((∃ name, s.session? name = some x) ∨ x.transaction = none ∧ x.depth = 0)
    ∧ Request.AllConfined ok requests ∧ ((Request.runAll true requests).run (s.workspace x)).2 = w

theorem Store.Good.moment {s : Store} (h : s.Good P) (kept : KeptIn P ok) {w : Workspace} (moment : s.Moment ok w) :
    w.Good P := by
  obtain ⟨x, requests, session, within, rfl⟩ := moment
  have own : x.Good P := by
    rcases session with ⟨name, session⟩ | ⟨idle, depth⟩
    · exact h.session session
    · unfold Session.Good
      rw [idle]
      exact depth
  exact Request.good_runAll kept requests within true (Store.good_workspace h.contents own)

/-! ## Hosts -/

/-- The property holds of every database on the disk. -/
def Disk.Good (P : Database → Prop) (d : Disk) : Prop := ∀ e ∈ d.entries, ∀ f, e.2 = .database f → P f.contents

/-- The property holds of every database on the disk and in the open store. -/
structure Host.Good (P : Database → Prop) (h : Host) : Prop where
  disk : h.disk.Good P
  store : ∀ s ∈ h.store, s.Good P

/-- What follows from two properties of databases holds where both hold. -/
theorem Host.Good.map₂ {Q R : Database → Prop} (both : ∀ db, P db → Q db → R db) {h : Host} (good : h.Good P) (good' : h.Good Q) :
    h.Good R where
  disk e mem f eq := both _ (good.disk e mem f eq) (good'.disk e mem f eq)
  store s opened :=
    have stored := good.store s opened
    have stored' := good'.store s opened
    ⟨both _ stored.contents stored'.contents, fun e mem => (stored.sessions e mem).map₂ both (stored'.sessions e mem)⟩

namespace Disk

variable {d : Disk}

theorem Good.put (h : d.Good P) (place : Location) {e : Entry} (fine : ∀ f, e = .database f → P f.contents) :
    (d.put place e).Good P :=
  List.forall_mem_cons.2 ⟨fine, fun old mem => h old (List.mem_filter.1 mem).1⟩

theorem Good.makeDirectories? (h : d.Good P) {place : Location} {names : List String} {d' : Disk}
    (made : d.makeDirectories? place names = some d') : d'.Good P := by
  induction names generalizing d place with
  | nil => cases made; exact h
  | cons name rest ih =>
    rw [Disk.makeDirectories?] at made
    split at made
    · exact ih h made
    · cases made
    · exact ih (h.put _ fun f eq => by cases eq) made

theorem Good.database? (h : d.Good P) (empty : P .empty) {place : Location} {f : File}
    (found : d.database? place = some f) : P f.contents := by
  unfold Disk.database? at found
  split at found
  · cases found
  · split at found
    · cases found
      exact empty
    · rename_i file entry
      obtain rfl : file = f := Option.some.inj found
      obtain ⟨e, he, eq⟩ := Option.map_eq_some_iff.1 entry
      exact h e (List.mem_of_find?_eq_some he) _ eq
    · cases found

end Disk

namespace StoreRequest

/-- The request, and all requests in it, are as `ok` says, and none calls the engine itself. -/
def Within (ok : CollectionRequest → Prop) : StoreRequest → Prop
  | session _ request => request.Within ok
  | transaction requests _ _ | withSession requests _ _ => Request.AllWithin ok requests
  | _ => True

/-- The same, where `ok` may depend on the name of the collection. -/
def Confined (ok : String → CollectionRequest → Prop) : StoreRequest → Prop
  | session _ request => request.Confined ok
  | transaction requests _ _ | withSession requests _ _ => Request.AllConfined ok requests
  | _ => True

theorem Within.confined {ok : CollectionRequest → Prop} {r : StoreRequest} (h : r.Within ok) : r.Confined fun _ => ok := by
  cases r with
  | session _ request => exact Request.Within.confined h
  | transaction requests _ _ | withSession requests _ _ => exact Request.AllWithin.allConfined h
  | _ => trivial

end StoreRequest

namespace Host

variable {h : Host}

theorem good_openStore (kept : KeptIn P ok) (good : h.Good P) (closed : h.store = none) (settings : Settings) :
    (h.openStore settings).2.Good P := by
  have opened : (openFile h.disk settings).1.Good P
      ∧ ∀ file, (openFile h.disk settings).2 = .ok file → P file.contents := by
    unfold openFile
    simp only
    split
    · exact ⟨good.disk, fun file eq => by cases eq⟩
    · split
      · exact ⟨good.disk, fun file eq => by cases eq⟩
      · rename_i d made
        have above := good.disk.makeDirectories? made
        split
        · exact ⟨above, fun file eq => by cases eq⟩
        · rename_i file found
          have contents := above.database? kept.empty found
          split
          · refine ⟨above.put _ fun f eq => ?_, fun f eq => ?_⟩
            · cases eq; exact contents
            · cases eq; exact contents
          · refine ⟨above.put _ fun f eq => ?_, fun f eq => ?_⟩
            · cases eq; exact contents
            · cases eq
  unfold openStore
  simp only
  split
  · exact ⟨opened.1, by simp [closed]⟩
  · rename_i file eq
    refine ⟨opened.1, ?_⟩
    rintro s ⟨⟩
    exact ⟨opened.2 file eq, by simp [Store.start]⟩

theorem good_shutDown (good : h.Good P) : h.shutDown.Good P ∧ h.shutDown.store = none := by
  unfold shutDown
  cases open_ : h.store with
  | none => exact ⟨by simpa [open_] using good, by simpa using open_⟩
  | some s =>
    have ended := (Store.keeps_shutDown s (good.store s open_)).1
    refine ⟨⟨good.disk.put _ fun f eq => ?_, fun s eq => by cases eq⟩, rfl⟩
    cases eq
    exact ended.contents

theorem good_withStore (good : h.Good P) {f : Operation StoreReply} (keeps : Store.Keeps P f fun _ => True) :
    (h.withStore f).2.Good P := by
  unfold withStore
  split
  · exact good
  · rename_i s open_
    refine ⟨good.disk, ?_⟩
    rintro s' ⟨⟩
    exact (keeps s (good.store s open_)).1

theorem good_call (kept : KeptIn P ok) (good : h.Good P) {request : StoreRequest} (within : request.Confined ok) :
    (h.call request).2.Good P := by
  cases request with
  | session name request => exact good_withStore good ((Store.keeps_call kept name within).map _)
  | acquire name =>
    rw [call]
    refine good_withStore good ((Store.keeps_replace name).bind fun r _ => ?_)
    cases r <;> exact .pure _ trivial
  | release name =>
    rw [call]
    split
    · exact good
    · exact good_withStore good ((Store.keeps_release name).map _)
  | transaction requests failure keepGoing =>
    refine good_withStore good (Store.Keeps.map _ (Store.keeps_inSession fun w hw => ?_))
    exact Action.good_scope (fun v hv => Request.good_runBlock kept within failure keepGoing hv) hw
  | withSession requests failure keepGoing =>
    refine good_withStore good (Store.Keeps.map _ (Store.keeps_inSession fun w hw => ?_))
    exact Request.good_runBlock kept within failure keepGoing hw
  | status => exact good_withStore good (Store.keeps_get.bind fun _ _ => .pure _ trivial)
  | maintain => exact good_withStore good (Store.keeps_maintain.map _)
  | awaitMaintenance => exact good_withStore good (Store.keeps_awaitMaintenance.map _)
  | close => exact good_withStore good (Store.keeps_close.bind fun _ _ => .pure _ trivial)
  | takeEvents =>
    rw [call, takeEvents]
    split
    · rename_i closed
      exact ⟨good.disk, by simp [closed]⟩
    · rename_i s open_
      refine ⟨good.disk, ?_⟩
      rintro s' ⟨⟩
      exact ⟨(good.store s open_).contents, (good.store s open_).sessions⟩
  | reopen settings =>
    have ⟨down, closed⟩ := good_shutDown good
    have opened := good_openStore kept down closed (settings.getD h.shutDown.settings)
    rw [call, reopen_eq]
    cases eq : h.shutDown.openStore (settings.getD h.shutDown.settings) with
    | mk r h' =>
      rw [eq] at opened
      cases r <;> exact opened

/-- What all requests of a kind keep holds after any number of calls. -/
theorem good_callAll_of_confined (kept : KeptIn P ok) {requests : List StoreRequest}
    (within : ∀ r ∈ requests, r.Confined ok) (good : h.Good P) : (h.callAll requests).2.Good P := by
  induction requests generalizing h with
  | nil => exact good
  | cons r rest ih =>
    have next := good_call kept good (within r List.mem_cons_self)
    exact ih (fun q hq => within q (List.mem_cons_of_mem _ hq)) next

theorem good_start {disk : Disk} (good : disk.Good P) (settings : Settings) (ids : IdSource) (clock : Clock) :
    (start disk settings ids clock).Good P := ⟨good, by simp [start]⟩

/-- What the requests of some calls keep holds of every host that the calls lead to from a disk without a database. -/
theorem good_of_reached_of_confined (kept : KeptIn P ok) {disk : Disk} {settings : Settings} {ids : IdSource} {clock : Clock}
    {requests : List StoreRequest} (fresh : ∀ e ∈ disk.entries, ∀ f, e.2 ≠ .database f)
    (calls : ∀ r ∈ requests, r.Confined ok) (reached : ((start disk settings ids clock).callAll requests).2 = h) : h.Good P :=
  have empty : disk.Good P := fun e mem f eq => absurd eq (fresh e mem f)
  reached ▸ good_callAll_of_confined kept calls (good_start empty settings ids clock)

theorem good_of_reached {ok : CollectionRequest → Prop} (kept : Kept P ok) {disk : Disk} {settings : Settings} {ids : IdSource}
    {clock : Clock} {requests : List StoreRequest} (fresh : ∀ e ∈ disk.entries, ∀ f, e.2 ≠ .database f)
    (calls : ∀ r ∈ requests, r.Within ok) (reached : ((start disk settings ids clock).callAll requests).2 = h) : h.Good P :=
  good_of_reached_of_confined kept.keptIn fresh (fun r mem => (calls r mem).confined) reached

theorem Good.workspace (good : h.Good P) {s : Store} (opened : h.store = some s) {name : String} {x : Session}
    (session : s.session? name = some x) : (s.workspace x).Good P :=
  have store := good.store s opened
  Store.good_workspace store.contents (store.session session)

/-- What is read in a session of the open store is there for that store and that session. -/
theorem exists_session_of_bind {name : String} {f : Store → Session → Option α} {a : α}
    (evaluated : (h.store.bind fun s => (s.session? name).bind (f s)) = some a) :
    ∃ s x, h.store = some s ∧ s.session? name = some x ∧ f s x = some a := by
  obtain ⟨s, opened, found⟩ := Option.bind_eq_some_iff.1 evaluated
  obtain ⟨x, session, there⟩ := Option.bind_eq_some_iff.1 found
  exact ⟨s, x, opened, session, there⟩

theorem exists_session_of_map {name : String} {f : Store → Session → α} {a : α}
    (evaluated : (h.store.bind fun s => (s.session? name).map (f s)) = some a) :
    ∃ s x, h.store = some s ∧ s.session? name = some x ∧ f s x = a := by
  obtain ⟨s, opened, found⟩ := Option.bind_eq_some_iff.1 evaluated
  obtain ⟨x, session, eq⟩ := Option.map_eq_some_iff.1 found
  exact ⟨s, x, opened, session, eq⟩

end Host

end Dossier
