import Dossier.Proofs.Session.Snapshots

/-!
# Levels of their own

What a caller does inside `Action.transaction` may open, commit and roll back levels and run transactions inside (`Work`).
As long as the level that it was given stays open, all of it is kept or undone as one (`Workspace.Orderly.transaction_all`):
the levels that were open on entry stay below whatever is done (`Workspace.Above`), and the loops that close levels stop
exactly there.
-/

namespace Dossier

open Workspace

/-! ## Work in a level -/

/-- One step of a caller in a session: to open a collection, a request to one that is open, or a step between levels. -/
inductive Work.Step : Type → Type
  | collection (name : String) : Step Collection
  | perform (c : Collection) (request : CollectionRequest) : Step CollectionReply
  | begin : Step Unit
  | commit : Step Unit
  | rollback : Step Unit
  | depth : Step Nat

/-- What a caller does in a session. It sees what each step ends with before it goes on, and ends with an outcome of its
own. -/
inductive Work : Type → Type 1
  | done {α : Type} (outcome : Except StoreError α) : Work α
  | step {α β : Type} (s : Work.Step β) (next : Except StoreError β → Work α) : Work α
  | transaction {α β : Type} (inner : Work β) (next : Except StoreError β → Work α) : Work α

/-- The step as an action. -/
def Work.Step.act {α : Type} : Work.Step α → Action α
  | collection name => Collection.openNamed name
  | perform c request => request.perform c
  | begin => Action.begin
  | commit => Action.commit
  | rollback => Action.rollback
  | depth => Action.depth

namespace Work

/-- The work as an action. -/
def act : {α : Type} → Work α → Action α
  | _, done outcome => Action.ofStore outcome
  | _, step s next => do (next (← Action.attempt s.act)).act
  | _, transaction inner next => do (next (← Action.attempt (Action.transaction inner.act))).act

/-- At every point of the work at least so many levels are open. -/
def Stays (level : Nat) : {α : Type} → Work α → Workspace → Prop
  | _, done _, w => level ≤ w.depth
  | _, step s next, w => level ≤ w.depth ∧ (next (s.act.result w).1).Stays level (s.act.result w).2
  | _, transaction inner next, w => level ≤ w.depth
      ∧ (∀ v, Action.begin.result w = (.ok (), v) → inner.Stays level v)
      ∧ (next ((Action.transaction inner.act).result w).1).Stays level ((Action.transaction inner.act).result w).2

end Work

/-! ## Levels above others -/

namespace Workspace

variable {u v w : Workspace}

/-- The levels that are open once another one has been opened on `w` are open in `v`, and maybe further ones. -/
def Above (v w : Workspace) : Prop :=
  ∃ inner snapshot saved contents, w.opened = some (snapshot, saved, contents)
    ∧ v.base = some (snapshot, inner ++ saved, contents)

theorem above_of_base (base : v.base = w.opened) : v.Above w := by
  obtain ⟨⟨snapshot, saved, contents⟩, eq⟩ := Option.isSome_iff_exists.1 w.opened_isSome
  exact ⟨[], snapshot, saved, contents, eq, base.trans eq⟩

theorem Above.of_base (h : v.Above w) (base : u.base = v.base) : u.Above w := by
  obtain ⟨inner, snapshot, saved, contents, eq, over_⟩ := h
  exact ⟨inner, snapshot, saved, contents, eq, base.trans over_⟩

theorem opened_of_base {snapshot : Option Nat} {saved : List (Nat × Database)} {contents : Database}
    (h : w.base = some (snapshot, saved, contents)) :
    w.opened = some (snapshot, (w.depth, w.current) :: saved, contents) := by
  unfold Workspace.base at h
  unfold Workspace.opened current
  cases t : w.connection.transaction with
  | none => simp [t] at h
  | some t' =>
    simp only [t, Option.map_some, Option.some.injEq, Prod.mk.injEq] at h
    simp [h.1, h.2.1, h.2.2]

/-- Another level above. -/
theorem Above.opened (h : v.Above w) (base : u.base = v.opened) : u.Above w := by
  obtain ⟨inner, snapshot, saved, contents, eq, over_⟩ := h
  exact ⟨(v.depth, v.current) :: inner, snapshot, saved, contents, eq, base.trans (opened_of_base over_)⟩

/-- The innermost level is the one that was opened on `w`, or one above that. -/
theorem Above.cases (orderly : v.Orderly) (h : v.Above w) :
    v.base = w.opened ∨ ∃ u : Workspace, u.Orderly ∧ u.Above w ∧ v.base = u.opened := by
  obtain ⟨inner, snapshot, saved, contents, eq, over_⟩ := h
  cases inner with
  | nil => exact .inl (over_.trans eq.symm)
  | cons s rest =>
    right
    have inside : 0 < v.depth := by
      rw [orderly.depth_eq_saved, Workspace.saved, over_]
      simp
    obtain ⟨u, below, base⟩ := orderly.exists_opened inside
    refine ⟨u, below, ⟨rest, snapshot, saved, contents, eq, ?_⟩, base⟩
    rw [over_, Workspace.opened] at base
    cases t : u.connection.transaction with
    | none => simp [t] at base
    | some t' =>
      simp only [t, Option.some.injEq, Prod.mk.injEq, List.cons_append, List.cons.injEq] at base
      obtain ⟨rfl, ⟨-, stack⟩, rfl⟩ := base
      rw [Workspace.base, t, stack]
      rfl

/-- The level on `w` is open. -/
theorem Above.depth_lt (h : v.Above w) (hv : v.Orderly) (hw : w.Orderly) : w.depth < v.depth := by
  obtain ⟨inner, snapshot, saved, contents, eq, over_⟩ := h
  have stack := saved_opened w
  rw [eq] at stack
  have height := congrArg List.length stack
  have above : v.saved = (inner ++ saved).map (·.2) ++ [contents] := by rw [Workspace.saved, over_]; rfl
  rw [hv.depth_eq_saved, hw.depth_eq_saved, above]
  simp only [Option.elim_some, List.length_append, List.length_map, List.length_cons, List.length_nil] at height ⊢
  omega

/-- The level on `w` is the innermost one, if no others are open. -/
theorem Above.base_eq (h : v.Above w) (hv : v.Orderly) (hw : w.Orderly) (last : v.depth ≤ w.depth + 1) :
    v.base = w.opened := by
  obtain base | ⟨u, hu, below, base⟩ := h.cases hv
  · exact base
  · have := below.depth_lt hu hw
    have := hv.depth_opened hu base
    omega

end Workspace

namespace Action

variable {α : Type} {u v w : Workspace}

/-! ## Closing levels -/

/-- A commit above a level leaves that level open. -/
theorem above_commit (hw : w.Orderly) (hv : v.Orderly) (above : v.Above w) (inner : w.depth + 1 < v.depth) :
    (commit.result v).1 = .ok () ∧ (commit.result v).2.Orderly ∧ (commit.result v).2.Above w
      ∧ (commit.result v).2.current = v.current ∧ v.depth = (commit.result v).2.depth + 1 := by
  obtain base | ⟨u, hu, below, base⟩ := above.cases hv
  · rw [hv.depth_opened hw base] at inner
    exact absurd inner (Nat.lt_irrefl _)
  · obtain ⟨ok, orderly, bottom, current⟩ := commit_opened hu hv base
    refine ⟨ok, orderly, below.of_base bottom, current, ?_⟩
    rw [hv.depth_opened hu base, depth_of_base orderly hu bottom]

/-- A rollback above a level leaves that level open. -/
theorem above_rollback (hw : w.Orderly) (hv : v.Orderly) (above : v.Above w) (inner : w.depth + 1 < v.depth) :
    (rollback.result v).1 = .ok () ∧ (rollback.result v).2.Orderly ∧ (rollback.result v).2.Above w
      ∧ v.depth = (rollback.result v).2.depth + 1 := by
  obtain base | ⟨u, hu, below, base⟩ := above.cases hv
  · rw [hv.depth_opened hw base] at inner
    exact absurd inner (Nat.lt_irrefl _)
  · obtain ⟨ok, orderly, bottom, -⟩ := rollback_opened hu hv base
    refine ⟨ok, orderly, below.of_base bottom, ?_⟩
    rw [hv.depth_opened hu base, depth_of_base orderly hu bottom]

theorem commitTo_succ (level fuel : Nat) (v : Workspace) : (commitTo level (fuel + 1)).result v
    = if level < v.depth then (commit >>= fun _ => commitTo level fuel).result v else (.ok (), v) := by
  rw [commitTo, result_bind, result_depth]
  simp only
  split <;> rfl

theorem unwindTo_succ (level fuel : Nat) (cause : StoreError) (v : Workspace) :
    (unwindTo level cause (fuel + 1)).result v = if level < v.depth then
      match (rollback.result v).1 with
      | .ok _ => (unwindTo level cause fuel).result (rollback.result v).2
      | .error _ => (unwindTo level cause fuel).result { (rollback.result v).2 with
          events := (rollback.result v).2.events ++ [.rollbackFailed cause] }
    else (.ok (), v) := by
  rw [unwindTo, result_bind, result_depth]
  simp only
  split
  · rw [result_bind, result_attempt]
    cases (rollback.result v).1 <;> rfl
  · rfl

/-- Commits that stop above a level leave it open. -/
theorem above_commitTo (hw : w.Orderly) (hv : v.Orderly) (above : v.Above w) {level : Nat} (higher : w.depth < level)
    (fuel : Nat) : ((commitTo level fuel).result v).1 = .ok () ∧ ((commitTo level fuel).result v).2.Orderly
      ∧ ((commitTo level fuel).result v).2.Above w := by
  induction fuel generalizing v with
  | zero => exact ⟨rfl, hv, above⟩
  | succ fuel ih =>
    rw [commitTo_succ]
    split
    · rename_i inner
      obtain ⟨ok, orderly, above', -, -⟩ := above_commit hw hv above (by omega)
      rw [result_bind, show commit.result v = (.ok (), (commit.result v).2) from Prod.ext ok rfl]
      exact ih orderly above'
    · exact ⟨rfl, hv, above⟩

/-- Rollbacks that stop above a level leave it open. -/
theorem above_unwindTo (hw : w.Orderly) (hv : v.Orderly) (above : v.Above w) {level : Nat} (higher : w.depth < level)
    (cause : StoreError) (fuel : Nat) : ((unwindTo level cause fuel).result v).2.Orderly
      ∧ ((unwindTo level cause fuel).result v).2.Above w := by
  induction fuel generalizing v with
  | zero => exact ⟨hv, above⟩
  | succ fuel ih =>
    rw [unwindTo_succ]
    split
    · rename_i inner
      obtain ⟨ok, orderly, above', -⟩ := above_rollback hw hv above (by omega)
      rw [ok]
      exact ih orderly above'
    · exact ⟨hv, above⟩

/-- Commits down to where a level was opened keep the contents. -/
theorem commitTo_of_above (hw : w.Orderly) (hv : v.Orderly) (above : v.Above w) {fuel : Nat} (enough : v.depth ≤ fuel) :
    ((commitTo w.depth fuel).result v).1 = .ok () ∧ ((commitTo w.depth fuel).result v).2.Orderly
      ∧ ((commitTo w.depth fuel).result v).2.base = w.base
      ∧ ((commitTo w.depth fuel).result v).2.current = v.current := by
  induction fuel generalizing v with
  | zero =>
    have := above.depth_lt hv hw
    omega
  | succ fuel ih =>
    have deeper := above.depth_lt hv hw
    rw [commitTo_succ, if_pos deeper, result_bind]
    obtain base | ⟨u, hu, below, base⟩ := above.cases hv
    · obtain ⟨ok, orderly, bottom, current⟩ := commit_opened hw hv base
      rw [show commit.result v = (.ok (), (commit.result v).2) from Prod.ext ok rfl]
      simp only
      rw [commitTo_done (Nat.le_of_eq (depth_of_base orderly hw bottom))]
      exact ⟨rfl, orderly, bottom, current⟩
    · have inner : w.depth + 1 < v.depth := by
        have := below.depth_lt hu hw
        have := hv.depth_opened hu base
        omega
      obtain ⟨ok, orderly, above', current, depth⟩ := above_commit hw hv above inner
      rw [show commit.result v = (.ok (), (commit.result v).2) from Prod.ext ok rfl, ← current]
      exact ih orderly above' (by omega)

/-- Rollbacks down to where a level was opened give back what was there. -/
theorem unwindTo_of_above (hw : w.Orderly) (hv : v.Orderly) (above : v.Above w) (cause : StoreError) {fuel : Nat}
    (enough : v.depth ≤ fuel) : Same ((unwindTo w.depth cause fuel).result v).2 w := by
  induction fuel generalizing v with
  | zero =>
    have := above.depth_lt hv hw
    omega
  | succ fuel ih =>
    have deeper := above.depth_lt hv hw
    rw [unwindTo_succ, if_pos deeper]
    obtain base | ⟨u, hu, below, base⟩ := above.cases hv
    · obtain ⟨ok, orderly, bottom, current⟩ := rollback_opened hw hv base
      rw [ok]
      simp only
      rw [unwindTo_done (Nat.le_of_eq (depth_of_base orderly hw bottom))]
      exact .of_base orderly hw bottom current
    · have inner : w.depth + 1 < v.depth := by
        have := below.depth_lt hu hw
        have := hv.depth_opened hu base
        omega
      obtain ⟨ok, orderly, above', depth⟩ := above_rollback hw hv above inner
      rw [ok]
      exact ih orderly above' (by omega)

/-! ## The loops end -/

theorem result_closeLevels (v : Workspace) : ∃ u : Workspace, closeLevels.result v = (.ok (), u) ∧ u.depth = 0 := by
  refine ⟨_, result_modify _ _, ?_⟩
  split
  · rfl
  · omega

/-- A commit that succeeds closes a level, whatever the engine has open. -/
theorem depth_commit (ok : (commit.result v).1 = .ok ()) : (commit.result v).2.depth < v.depth := by
  rw [commit, result_bind, result_depth] at ok ⊢
  simp only at ok ⊢
  split at ok
  · cases ok
  · rename_i one
    rw [result_bind, result_connect] at ok ⊢
    cases committed : v.connection.commit with
    | error e => rw [committed] at ok; cases ok
    | ok c =>
      obtain ⟨u, closed, depth⟩ := result_closeLevels { v with connection := c }
      simp only [closed, depth]
      exact one ▸ Nat.one_pos
  · rename_i level more
    rw [result_bind, result_connect] at ok ⊢
    cases released : v.connection.release (level + 1) with
    | error e => rw [released] at ok; cases ok
    | ok c => rw [more]; exact Nat.lt_succ_self _

/-- A rollback closes a level, even when it fails. -/
theorem depth_rollback (open_ : 0 < v.depth) : (rollback.result v).2.depth < v.depth := by
  have closes : ∀ u, (closeLevels.result u).2.depth < v.depth := by
    intro u
    obtain ⟨u', closed, depth⟩ := result_closeLevels u
    rw [closed, depth]
    exact open_
  rw [rollback, result_bind, result_get]
  simp only
  split
  · omega
  · rename_i level more
    split
    · exact closes v
    · rename_i busy
      obtain ⟨t, tv⟩ := Option.ne_none_iff_exists'.1 (fun idle => busy (Option.isNone_iff_eq_none.2 idle))
      split
      · rw [result_bind, result_connect, Connection.rollback, tv]
        exact closes _
      · rw [rollbackSavepoint, result_bind, result_attempt]
        simp only
        cases ((connect fun c => do (← c.rollbackTo level).release level).result v).1 with
        | ok _ => rw [more]; exact Nat.lt_succ_self _
        | error e =>
          rw [result_bind, result_modify]
          simp only
          rw [result_bind]
          obtain ⟨u, closed, depth⟩ := result_closeLevels { ((connect fun c => do
            (← c.rollbackTo level).release level).result v).2 with
              connection := ((connect fun c => do (← c.rollbackTo level).release level).result v).2.connection.reset }
          rw [closed]
          simp only [result_throw, depth]
          exact open_

/-- A loop of commits has no more rounds than there are open levels. -/
theorem commitTo_congr (level : Nat) {m n : Nat} (hm : v.depth ≤ m) (hn : v.depth ≤ n) :
    (commitTo level m).result v = (commitTo level n).result v := by
  induction m generalizing n v with
  | zero => rw [commitTo_done (by omega), commitTo_done (by omega)]
  | succ m ih =>
    cases n with
    | zero => rw [commitTo_done (by omega), commitTo_done (by omega)]
    | succ n =>
      rw [commitTo_succ, commitTo_succ, result_bind, result_bind]
      have closes := depth_commit (v := v)
      cases ran : commit.result v with
      | mk r u =>
        rw [ran] at closes
        cases r with
        | error e => rfl
        | ok _ =>
          have fewer : u.depth < v.depth := closes rfl
          simp only [ih (show u.depth ≤ m by omega) (show u.depth ≤ n by omega)]

/-- A loop of rollbacks has no more rounds than there are open levels. -/
theorem unwindTo_congr (level : Nat) (cause : StoreError) {m n : Nat} (hm : v.depth ≤ m) (hn : v.depth ≤ n) :
    (unwindTo level cause m).result v = (unwindTo level cause n).result v := by
  induction m generalizing n v with
  | zero => rw [unwindTo_done (by omega), unwindTo_done (by omega)]
  | succ m ih =>
    cases n with
    | zero => rw [unwindTo_done (by omega), unwindTo_done (by omega)]
    | succ n =>
      rw [unwindTo_succ, unwindTo_succ]
      split
      · have fewer := depth_rollback (v := v) (by omega)
        have same : ∀ u : Workspace, u.depth = (rollback.result v).2.depth →
            (unwindTo level cause m).result u = (unwindTo level cause n).result u := fun u depth =>
          ih (by omega) (by omega)
        cases (rollback.result v).1 with
        | ok _ => exact same _ rfl
        | error e => exact same _ rfl
      · rfl

/-- The loop of commits ends of itself: at its level, or at a commit that fails. -/
theorem commitTo_ends (level : Nat) {fuel : Nat} (enough : v.depth ≤ fuel)
    (ok : ((commitTo level fuel).result v).1 = .ok ()) : ((commitTo level fuel).result v).2.depth ≤ level := by
  induction fuel generalizing v with
  | zero => exact Nat.le_trans enough (Nat.zero_le level)
  | succ fuel ih =>
    rw [commitTo_succ, result_bind] at ok ⊢
    split at ok
    · rename_i more
      rw [if_pos more]
      have closes := depth_commit (v := v)
      cases ran : commit.result v with
      | mk r u =>
        rw [ran] at closes ok
        cases r with
        | error e => cases ok
        | ok _ =>
          have fewer : u.depth < v.depth := closes rfl
          exact ih (by omega) ok
    · rename_i done
      rw [if_neg done]
      exact Nat.le_of_not_lt done

/-- The loop of rollbacks ends of itself at its level, even if they fail. -/
theorem unwindTo_ends (level : Nat) (cause : StoreError) {fuel : Nat} (enough : v.depth ≤ fuel) :
    ((unwindTo level cause fuel).result v).2.depth ≤ level := by
  induction fuel generalizing v with
  | zero => exact Nat.le_trans enough (Nat.zero_le level)
  | succ fuel ih =>
    rw [unwindTo_succ]
    split
    · have fewer := depth_rollback (v := v) (by omega)
      split
      · exact ih (by omega)
      · exact ih (by show (rollback.result v).2.depth ≤ fuel; omega)
    · exact Nat.le_of_not_lt ‹_›

end Action

/-! ## What work leaves -/

open Dossier.Action

namespace Work

variable {α β : Type} {v w : Workspace}

theorem Stays.le_depth {level : Nat} {f : Work α} (h : f.Stays level v) : level ≤ v.depth := by
  cases f with
  | done _ => exact h
  | step _ _ => exact h.1
  | transaction _ _ => exact h.1

/-- A step of a caller that leaves a level open leaves all that are below it. -/
theorem Step.above (hw : w.Orderly) (s : Step β) (hv : v.Orderly) (above : v.Above w)
    (open_ : w.depth < (s.act.result v).2.depth) : (s.act.result v).2.Orderly ∧ (s.act.result v).2.Above w := by
  have script : ∀ {a : Action β}, Script a → (a.result v).2.Orderly ∧ (a.result v).2.Above w := by
    intro a h
    obtain ⟨orderly, base, -⟩ := h.invariant (P := fun _ => True) (fun _ _ _ _ => trivial) False v hv False.elim trivial
    exact ⟨orderly, above.of_base base⟩
  cases s with
  | collection name => exact script (Collection.script_openNamed name)
  | perform c request => exact script (request.script_perform c)
  | depth => exact ⟨hv, above⟩
  | begin =>
    rcases begin_spec hv with ⟨e, eq, -⟩ | ⟨-, orderly, base, -⟩
    · rw [act, eq]
      exact ⟨hv, above⟩
    · exact ⟨orderly, above.opened base⟩
  | commit =>
    by_cases inner : w.depth + 1 < v.depth
    · obtain ⟨-, orderly, above', -⟩ := above_commit hw hv above inner
      exact ⟨orderly, above'⟩
    · obtain ⟨-, orderly, base, -⟩ := commit_opened hw hv (above.base_eq hv hw (Nat.le_of_not_lt inner))
      rw [act, depth_of_base orderly hw base] at open_
      exact absurd open_ (Nat.lt_irrefl _)
  | rollback =>
    by_cases inner : w.depth + 1 < v.depth
    · obtain ⟨-, orderly, above', -⟩ := above_rollback hw hv above inner
      exact ⟨orderly, above'⟩
    · obtain ⟨-, orderly, base, -⟩ := rollback_opened hw hv (above.base_eq hv hw (Nat.le_of_not_lt inner))
      rw [act, depth_of_base orderly hw base] at open_
      exact absurd open_ (Nat.lt_irrefl _)

/-- Work that stays in its level leaves all levels open that were there before. -/
theorem above_act (hw : w.Orderly) (f : Work α) (hv : v.Orderly) (above : v.Above w) (stays : f.Stays (w.depth + 1) v) :
    (f.act.result v).2.Orderly ∧ (f.act.result v).2.Above w := by
  induction f generalizing v with
  | done outcome =>
    rw [act, result_ofStore]
    exact ⟨hv, above⟩
  | step s next ih =>
    obtain ⟨-, stays⟩ := stays
    obtain ⟨orderly, above'⟩ := s.above hw hv above (Nat.lt_of_succ_le stays.le_depth)
    rw [act, result_bind, result_attempt]
    exact ih _ orderly above' stays
  | transaction inner next ih ih' =>
    obtain ⟨-, inside, stays⟩ := stays
    have closed : ((Action.transaction inner.act).result v).2.Orderly
        ∧ ((Action.transaction inner.act).result v).2.Above w := by
      have opens := begin_spec hv
      rw [result_transaction]
      cases begun : Action.begin.result v with
      | mk r v' =>
        rw [begun] at opens
        cases r with
        | error e =>
          rcases opens with ⟨e, eq, -⟩ | ⟨ok, -⟩
          · cases eq
            exact ⟨hv, above⟩
          · cases ok
        | ok _ =>
          rcases opens with ⟨e, eq, -⟩ | ⟨-, orderly, base, -⟩
          · cases eq
          · have entry : w.depth < v'.depth - 1 := by
              rw [orderly.depth_opened hv base]
              exact above.depth_lt hv hw
            obtain ⟨orderly', above'⟩ := ih orderly (above.opened base) (inside v' begun)
            simp only
            cases ran : inner.act.result v' with
            | mk r u =>
              rw [ran] at orderly' above'
              cases r with
              | error e => exact above_unwindTo hw orderly' above' entry e u.depth
              | ok x =>
                obtain ⟨ok, orderly'', above''⟩ := above_commitTo hw orderly' above' entry u.depth
                simp only
                cases done : (commitTo (v'.depth - 1) u.depth).result u with
                | mk r t =>
                  rw [done] at ok orderly'' above''
                  cases r with
                  | error e => cases ok
                  | ok _ => exact ⟨orderly'', above''⟩
    rw [act, result_bind, result_attempt]
    exact ih' _ closed.1 closed.2 stays

end Work

/-- What becomes of work that stays in its level: it is committed or rolled back as a whole. -/
theorem Workspace.Orderly.transaction_of_begun {α : Type} {v w : Workspace} (orderly : w.Orderly)
    (begun : begin.result w = (.ok (), v)) (f : Work α) (stays : f.Stays (w.depth + 1) v) :
    ∃ u, (transaction f.act).result w = ((f.act.result v).1, u) ∧ u.Orderly ∧ u.base = w.base
      ∧ u.current = if (f.act.result v).1.isOk then (f.act.result v).2.current else w.current := by
  have opens := begin_spec orderly
  rw [begun] at opens
  rcases opens with ⟨e, eq, -⟩ | ⟨-, orderly', base, -⟩
  · cases eq
  · obtain ⟨framed, above⟩ := f.above_act orderly orderly' (above_of_base base) stays
    have entry : v.depth - 1 = w.depth := by rw [orderly'.depth_opened orderly base]; rfl
    rw [result_transaction, begun]
    simp only [entry]
    cases ran : f.act.result v with
    | mk r u =>
      rw [ran] at framed above
      cases r with
      | error e =>
        have back := unwindTo_of_above orderly framed above e (Nat.le_refl _)
        exact ⟨_, rfl, back.orderly orderly, back.base, back.current⟩
      | ok x =>
        obtain ⟨done, orderly'', bottom, current⟩ := commitTo_of_above orderly framed above (Nat.le_refl _)
        simp only at done orderly'' bottom current ⊢
        cases closed : (commitTo w.depth u.depth).result u with
        | mk r t =>
          rw [closed] at done orderly'' bottom current
          cases r with
          | error e => cases done
          | ok _ => exact ⟨t, rfl, orderly'', bottom, current⟩

/-- A level of its own is all or nothing: the whole ends with what the work in it ends with, the levels that were open on
entry are open, and the contents are those that the work left, or those of before if it failed. Where the level cannot be
opened, nothing is done. The loops that close levels end in every state. -/
theorem Workspace.Orderly.transaction_all {α : Type} {w : Workspace} (orderly : w.Orderly) (f : Work α) :
    ((∃ e, begin.result w = (.error e, w) ∧ (transaction f.act).result w = (.error e, w))
      ∨ ∃ v, begin.result w = (.ok (), v) ∧ v.depth = w.depth + 1 ∧ (f.Stays (w.depth + 1) v → ∃ u,
        (transaction f.act).result w = ((f.act.result v).1, u) ∧ u.Orderly ∧ u.depth = w.depth ∧ u.base = w.base
          ∧ u.current = if (f.act.result v).1.isOk then (f.act.result v).2.current else w.current))
      ∧ ∀ (v : Workspace) (level fuel : Nat) (cause : StoreError), v.depth ≤ fuel →
        (commitTo level fuel).result v = (commitTo level v.depth).result v
          ∧ (((commitTo level v.depth).result v).1 = .ok () → ((commitTo level v.depth).result v).2.depth ≤ level)
          ∧ (unwindTo level cause fuel).result v = (unwindTo level cause v.depth).result v
          ∧ ((unwindTo level cause v.depth).result v).2.depth ≤ level := by
  constructor
  · rcases begin_spec orderly with ⟨e, eq, -⟩ | ⟨ok, orderly', base, -⟩
    · refine .inl ⟨e, eq, ?_⟩
      rw [result_transaction, eq]
    · have begun : begin.result w = (.ok (), (begin.result w).2) := Prod.ext ok rfl
      refine .inr ⟨_, begun, orderly'.depth_opened orderly base, fun stays => ?_⟩
      obtain ⟨u, ran, orderly'', bottom, current⟩ := orderly.transaction_of_begun begun f stays
      exact ⟨u, ran, orderly'', depth_of_base orderly'' orderly bottom, bottom, current⟩
  · intro v level fuel cause enough
    exact ⟨commitTo_congr level enough (Nat.le_refl _), commitTo_ends level (Nat.le_refl _),
      unwindTo_congr level cause enough (Nat.le_refl _), unwindTo_ends level cause (Nat.le_refl _)⟩

/-- Inserts a document and commits it in an inner level, leaves another level open, and fails. -/
def Work.failing : Work Unit :=
  .step .begin fun _ => .step (.perform logHandle (.insertOne (named "y"))) fun _ =>
    .step .commit fun _ => .step .begin fun _ => .done (.error .closed)

/-- A session with an open level and a document. -/
def Workspace.oneLevel : Workspace :=
  ((Request.runAll true ([.begin, insertion "x"].map Snapshots.Move.request)).run atStart).2

theorem Workspace.Orderly.transaction_all_failing : ∃ u, (transaction Work.failing.act).result oneLevel = (.error .closed, u)
    ∧ u.depth = 1 ∧ identifiers u.snapshots = some ["x"] := by
  have ready : oneLevel.Ready := (ready_of_connect rfl 0 0 _ [] _ : Ready atStart).run [.begin, insertion "x"] |>.2.2
  have opens : (begin.result oneLevel).1.isOk = true := by decide +kernel
  have contents : identifiers oneLevel.snapshots = some ["x"] := by decide +kernel
  have stays : Work.failing.Stays 2 (begin.result oneLevel).2 := by
    refine ⟨?_, ?_, ?_, ?_, show 2 ≤ Workspace.depth _ from ?_⟩ <;> decide +kernel
  have fails : (Work.failing.act.result (begin.result oneLevel).2).1 = .error .closed := by
    simp [Work.failing, Work.act, result_bind, result_ofStore]
  have level : oneLevel.depth = 1 := by decide +kernel
  obtain ⟨⟨e, eq, -⟩ | ⟨v, begun, -, rest⟩, -⟩ := ready.orderly.transaction_all Work.failing
  · rw [eq] at opens
    cases opens
  · obtain rfl : (begin.result oneLevel).2 = v := congrArg Prod.snd begun
    rw [level] at rest
    obtain ⟨u, ran, -, depth, -, current⟩ := rest stays
    rw [fails] at ran current
    refine ⟨u, ran, depth, ?_⟩
    rw [← contents, identifiers, identifiers]
    exact congrArg (fun db : Database => (db.table? "log").map fun t => t.rows.map Row.id) current

end Dossier
