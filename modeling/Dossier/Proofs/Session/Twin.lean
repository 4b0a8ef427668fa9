import Dossier.Proofs.Outcome
import Dossier.Proofs.Session.Still

/-!
# Two sessions side by side

`Action.Twin`: run in two workspaces whose databases are related, two actions end alike, take the same identifiers and
leave related databases. There is one rule for each way to make an action. What fails inside a transaction is undone
there, so it need not leave related databases; an action that is `strict` does.

`Action.Runs`: what an action that takes no identifier does inside a transaction, told by the clock and the database it
starts from.
-/

namespace Dossier

open Outcome Workspace

/-- Workspaces of one run beside another: at one level, with the same identifiers to come, with related databases, and
with the same clock if they are `timed`. -/
structure Workspace.Pair (timed : Prop) (R : Database → Database → Prop) (w w' : Workspace) : Prop where
  orderly : w.Orderly
  orderly' : w'.Orderly
  unlocked : w.Unlocked
  unlocked' : w'.Unlocked
  level : w.base.isSome = w'.base.isSome
  ids : w.ids = w'.ids
  clocks : timed → w.clock = w'.clock
  current : R w.current w'.current

/-- What an action has left is a pair again if the databases are related. -/
theorem Workspace.Pair.next {timed : Prop} {R : Database → Database → Prop} {w w' v v' : Workspace}
    (pair : Pair timed R w w') (kept : Kept v w) (kept' : Kept v' w') (ids : v.ids = v'.ids)
    (clocks : timed → v.clock = v'.clock) (current : R v.current v'.current) : Pair timed R v v' :=
  ⟨kept.orderly, kept'.orderly, kept.unlocked pair.unlocked, kept'.unlocked pair.unlocked',
    by rw [kept.base, kept'.base, pair.level], ids, clocks, current⟩

namespace Action

variable {timed strict : Prop} {R : Database → Database → Prop} {α β γ δ : Type}

/-- Levels that have been opened on a pair are a pair. -/
theorem pair_of_begun {w w' v v' : Workspace} (pair : Pair timed R w w') (begun : begin.result w = (.ok (), v))
    (begun' : begin.result w' = (.ok (), v')) : Pair timed R v v' := by
  obtain ⟨orderly, base, current, ids, clock, -⟩ := level_of_begun (α := Unit) pair.orderly begun
  obtain ⟨orderly', base', current', ids', clock', -⟩ := level_of_begun (α := Unit) pair.orderly' begun'
  have inside : v.base.isSome := base ▸ opened_isSome w
  have inside' : v'.base.isSome := base' ▸ opened_isSome w'
  exact ⟨orderly, orderly', unlocked_of_base inside, unlocked_of_base inside', by rw [inside, inside'],
    ids.trans (pair.ids.trans ids'.symm), fun at_ => by rw [clock, clock', pair.clocks at_],
    by rw [current, current']; exact pair.current⟩

/-- Two actions end alike: both make something, related as `ρ` says, or both fail with one error. -/
def Ends (strict : Prop) (R : Database → Database → Prop) (ρ : α → β → Prop) :
    Except StoreError α × Workspace → Except StoreError β × Workspace → Prop
  | (.ok x, v), (.ok y, v') => ρ x y ∧ R v.current v'.current
  | (.error e, v), (.error e', v') => e = e' ∧ (strict → R v.current v'.current)
  | _, _ => False

/-- Run in two workspaces, two actions end alike, keep the levels and take the same identifiers, and the same readings of
the clock if they are `timed`. -/
structure Matches (timed strict : Prop) (R : Database → Database → Prop) (ρ : α → β → Prop) (a : Action α) (a' : Action β)
    (w w' : Workspace) : Prop where
  ends : Ends strict R ρ (a.result w) (a'.result w')
  kept : Kept (a.result w).2 w
  kept' : Kept (a'.result w').2 w'
  ids : (a.result w).2.ids = (a'.result w').2.ids
  clocks : timed → (a.result w).2.clock = (a'.result w').2.clock

/-- Two actions do the same to related databases. -/
def Twin (timed strict : Prop) (R : Database → Database → Prop) (ρ : α → β → Prop) (a : Action α) (a' : Action β) : Prop :=
  ∀ w w' : Workspace, Pair timed R w w' → Matches timed strict R ρ a a' w w'

namespace Matches

variable {ρ : α → β → Prop} {σ : γ → δ → Prop} {a : Action α} {a' : Action β} {w w' : Workspace}

theorem of_eq {r : Except StoreError α} {r' : Except StoreError β} {v v' : Workspace} (made : a.result w = (r, v))
    (made' : a'.result w' = (r', v')) (ends : Ends strict R ρ (r, v) (r', v')) (kept : Kept v w) (kept' : Kept v' w')
    (ids : v.ids = v'.ids) (clocks : timed → v.clock = v'.clock) : Matches timed strict R ρ a a' w w' :=
  ⟨by rw [made, made']; exact ends, by rw [made]; exact kept, by rw [made']; exact kept', by rw [made, made']; exact ids,
    by rw [made, made']; exact clocks⟩

theorem bind_at {f : α → Action γ} {f' : β → Action δ} (pair : Pair timed R w w') (first : Matches timed strict R ρ a a' w w')
    (later : ∀ x y v v', a.result w = (.ok x, v) → a'.result w' = (.ok y, v') → ρ x y → Pair timed R v v' →
      Matches timed strict R σ (f x) (f' y) v v') : Matches timed strict R σ (a >>= f) (a' >>= f') w w' := by
  obtain ⟨ends, kept, kept', ids, clocks⟩ := first
  have one := result_bind w a f
  have other := result_bind w' a' f'
  cases made : a.result w with
  | mk r v =>
    cases made' : a'.result w' with
    | mk r' v' =>
      rw [made] at ends kept ids clocks one
      rw [made'] at ends kept' ids clocks other
      cases r with
      | error e =>
        cases r' with
        | error e' => exact .of_eq one other ends kept kept' ids clocks
        | ok y => exact ends.elim
      | ok x =>
        cases r' with
        | error e' => exact ends.elim
        | ok y =>
          obtain ⟨ends', kept₁, kept₁', ids', clocks'⟩ := later x y v v' made made' ends.1 (pair.next kept kept' ids clocks ends.2)
          exact .of_eq one other ends' (kept₁.trans kept) (kept₁'.trans kept') ids' clocks'

theorem bind {f : α → Action γ} {f' : β → Action δ} (pair : Pair timed R w w') (first : Matches timed strict R ρ a a' w w')
    (later : ∀ x y, ρ x y → Twin timed strict R σ (f x) (f' y)) : Matches timed strict R σ (a >>= f) (a' >>= f') w w' :=
  first.bind_at pair fun x y v v' _ _ related next => later x y related v v' next

/-- What ends alike with related databases even in failure does so where this is not asked for. -/
theorem relax (h : Matches timed strict R ρ a a' w w') : Matches timed False R ρ a a' w w' := by
  obtain ⟨ends, kept, kept', ids, clocks⟩ := h
  refine ⟨?_, kept, kept', ids, clocks⟩
  cases made : a.result w with
  | mk r v =>
    cases made' : a'.result w' with
    | mk r' v' =>
      rw [made, made'] at ends
      cases r <;> cases r'
      · exact ⟨ends.1, False.elim⟩
      · exact ends.elim
      · exact ends.elim
      · exact ends

/-- What follows a request that is refused in both runs or in none. -/
theorem ofRequest_bind {r : Except CompileError α} {f : α → Action γ} {f' : α → Action δ} (pair : Pair timed R w w')
    (later : ∀ x, r = .ok x → Matches timed strict R σ (f x) (f' x) w w') :
    Matches timed strict R σ (Action.ofRequest r >>= f) (Action.ofRequest r >>= f') w w' := by
  have one : (Action.ofRequest r >>= f).result w = match r with
      | .ok x => (f x).result w
      | .error e => (.error (.compile e), w) := by
    rw [result_bind, result_ofRequest]
    cases r <;> rfl
  have other : (Action.ofRequest r >>= f').result w' = match r with
      | .ok x => (f' x).result w'
      | .error e => (.error (.compile e), w') := by
    rw [result_bind, result_ofRequest]
    cases r <;> rfl
  cases r with
  | error e =>
    exact .of_eq one other ⟨rfl, fun _ => pair.current⟩ (.refl pair.orderly) (.refl pair.orderly') pair.ids pair.clocks
  | ok x =>
    obtain ⟨ends, kept, kept', ids, clocks⟩ := later x rfl
    exact .of_eq one other ends kept kept' ids clocks

/-- A failure ends both runs. -/
theorem throw_bind (pair : Pair timed R w w') (e : StoreError) (f : α → Action γ) (f' : β → Action δ) :
    Matches timed strict R σ (MonadExcept.throw e >>= f) (MonadExcept.throw e >>= f') w w' :=
  .of_eq (result_bind w _ f) (result_bind w' _ f') ⟨rfl, fun _ => pair.current⟩ (.refl pair.orderly) (.refl pair.orderly')
    pair.ids pair.clocks

/-- In levels that have been opened, what two actions do is kept in both runs or undone in both. -/
theorem transaction_of_begun {v v' : Workspace} (pair : Pair timed R w w') (begun : begin.result w = (.ok (), v))
    (begun' : begin.result w' = (.ok (), v')) (h : Pair timed R v v' → v.base.isSome → v.current = w.current →
      v'.current = w'.current → v.clock = w.clock → Matches timed False R ρ a a' v v') :
    Matches timed strict R ρ (Action.transaction a) (Action.transaction a') w w' := by
  obtain ⟨-, base, current, -, shows, ran⟩ := level_of_begun (α := α) pair.orderly begun
  obtain ⟨-, -, current', -, -, ran'⟩ := level_of_begun (α := β) pair.orderly' begun'
  obtain ⟨ends, kept, kept', taken, read⟩ := h (pair_of_begun pair begun begun') (base ▸ opened_isSome w) current current' shows
  obtain ⟨t, eq, ordered, bottom, unlocked, given, clock, seen⟩ := ran a kept.orderly kept.base
  obtain ⟨t', eq', ordered', bottom', unlocked', given', clock', seen'⟩ := ran' a' kept'.orderly kept'.base
  refine .of_eq eq eq' ?_ ⟨ordered, bottom, fun _ => unlocked⟩ ⟨ordered', bottom', fun _ => unlocked'⟩
    (given.trans (taken.trans given'.symm)) fun at_ => clock.trans ((read at_).trans clock'.symm)
  cases one : a.result v with
  | mk r u =>
    cases other : a'.result v' with
    | mk r' u' =>
      rw [one] at ends seen
      rw [other] at ends seen'
      cases r with
      | error e =>
        cases r' with
        | ok y => exact ends.elim
        | error e' => exact ⟨ends.1, fun _ => by rw [seen, seen']; exact pair.current⟩
      | ok x =>
        cases r' with
        | error e' => exact ends.elim
        | ok y => exact ⟨ends.1, by rw [seen, seen']; exact ends.2⟩

/-- In levels of their own, what two actions do is kept in both runs or undone in both. -/
theorem transaction (pair : Pair timed R w w') (h : ∀ v v', Pair timed R v v' → v.base.isSome → v.current = w.current →
    v'.current = w'.current → v.clock = w.clock → Matches timed False R ρ a a' v v') :
    Matches timed strict R ρ (Action.transaction a) (Action.transaction a') w w' := by
  obtain ⟨v, begun, -⟩ := exists_begun pair.orderly pair.unlocked
  obtain ⟨v', begun', -⟩ := exists_begun pair.orderly' pair.unlocked'
  exact transaction_of_begun pair begun begun' (h v v')

/-- Statements that read. -/
theorem read {g : Database → Except EngineError α} {g' : Database → Except EngineError β} (pair : Pair timed R w w')
    (same : Agree ρ (g w.current) (g' w'.current)) : Matches timed strict R ρ (Action.read g) (Action.read g') w w' := by
  obtain ⟨answer, kept, seen⟩ := read_kept pair.orderly g
  obtain ⟨answer', kept', seen'⟩ := read_kept pair.orderly' g'
  have answers := same.mapError StoreError.ofEngine
  refine ⟨?_, kept, kept', (Still.read g w).1.trans (pair.ids.trans (Still.read g' w').1.symm),
    fun at_ => (Still.read g w).2.trans ((pair.clocks at_).trans (Still.read g' w').2.symm)⟩
  rw [← answer, ← answer'] at answers
  have current := pair.current
  rw [← seen, ← seen'] at current
  cases one : (Action.read g).result w with
  | mk r v =>
    cases other : (Action.read g').result w' with
    | mk r' v' =>
      rw [one, other] at answers current
      cases r <;> cases r'
      · exact ⟨answers, fun _ => current⟩
      · exact answers.elim
      · exact answers.elim
      · exact ⟨answers, current⟩

/-- Statements that write. -/
theorem write {g : Database → Except EngineError (α × Database)} {g' : Database → Except EngineError (β × Database)}
    (pair : Pair timed R w w') (same : Agree (fun p p' => ρ p.1 p'.1 ∧ R p.2 p'.2) (g w.current) (g' w'.current)) :
    Matches timed strict R ρ (Action.write g) (Action.write g') w w' := by
  have ids := (Still.write g w).1.trans (pair.ids.trans (Still.write g' w').1.symm)
  have clocks : timed → ((Action.write g).result w).2.clock = ((Action.write g').result w').2.clock := fun at_ =>
    (Still.write g w).2.trans ((pair.clocks at_).trans (Still.write g' w').2.symm)
  rcases write_unlocked pair.orderly pair.unlocked g with ⟨e, failed, eq⟩ | ⟨x, db, made, ok, kept, current⟩
  · rcases write_unlocked pair.orderly' pair.unlocked' g' with ⟨e', failed', eq'⟩ | ⟨_, _, made', -⟩
    · rw [failed, failed'] at same
      exact .of_eq eq eq' ⟨congrArg _ same, fun _ => pair.current⟩ (.refl pair.orderly) (.refl pair.orderly')
        pair.ids pair.clocks
    · rw [failed, made'] at same
      exact same.elim
  · rcases write_unlocked pair.orderly' pair.unlocked' g' with ⟨e', failed', -⟩ | ⟨y, db', made', ok', kept', current'⟩
    · rw [made, failed'] at same
      exact same.elim
    · rw [made, made'] at same
      refine ⟨?_, kept, kept', ids, clocks⟩
      rw [show (Action.write g).result w = (.ok x, ((Action.write g).result w).2) from Prod.ext ok rfl,
        show (Action.write g').result w' = (.ok y, ((Action.write g').result w').2) from Prod.ext ok' rfl]
      exact ⟨same.1, by rw [current, current']; exact same.2⟩

/-- What is made of the results of two actions. -/
theorem map {σ : γ → δ → Prop} (h : Matches timed strict R ρ a a' w w') {g : α → γ} {g' : β → δ}
    (post : ∀ x y, ρ x y → σ (g x) (g' y)) : Matches timed strict R σ (g <$> a) (g' <$> a') w w' := by
  obtain ⟨ends, kept, kept', ids, clocks⟩ := h
  refine of_eq (result_map w g a) (result_map w' g' a') ?_ kept kept' ids clocks
  cases one : a.result w with
  | mk r v =>
    cases other : a'.result w' with
    | mk r' v' =>
      rw [one, other] at ends
      cases r <;> cases r'
      · exact ends
      · exact ends.elim
      · exact ends.elim
      · exact ⟨post _ _ ends.1, ends.2⟩

end Matches

namespace Twin

variable {ρ : α → β → Prop} {σ : γ → δ → Prop} {a : Action α} {a' : Action β}

theorem bind {f : α → Action γ} {f' : β → Action δ} (first : Twin timed strict R ρ a a')
    (later : ∀ x y, ρ x y → Twin timed strict R σ (f x) (f' y)) : Twin timed strict R σ (a >>= f) (a' >>= f') :=
  fun w w' pair => (first w w' pair).bind pair later

theorem map (h : Twin timed strict R ρ a a') {g : α → γ} {g' : β → δ} (post : ∀ x y, ρ x y → σ (g x) (g' y)) :
    Twin timed strict R σ (g <$> a) (g' <$> a') := fun w w' pair => (h w w' pair).map post

/-- Actions that tell a result and do nothing. -/
theorem of_result {r : Except StoreError α} {r' : Except StoreError β} (same : Agree ρ r r')
    (made : ∀ w, a.result w = (r, w)) (made' : ∀ w, a'.result w = (r', w)) : Twin timed strict R ρ a a' := by
  intro w w' pair
  refine .of_eq (made w) (made' w') ?_ (.refl pair.orderly) (.refl pair.orderly') pair.ids pair.clocks
  cases r <;> cases r'
  · exact ⟨same, fun _ => pair.current⟩
  · exact same.elim
  · exact same.elim
  · exact ⟨same, pair.current⟩

theorem pure {x : α} {y : β} (same : ρ x y) : Twin timed strict R ρ (Pure.pure x : Action α) (Pure.pure y : Action β) :=
  .of_result (show Agree ρ (.ok x) (.ok y) from same) (fun _ => rfl) fun _ => rfl

theorem throw (e : StoreError) : Twin timed strict R ρ (MonadExcept.throw e : Action α) (MonadExcept.throw e : Action β) :=
  .of_result (show Agree ρ (.error e) (.error e) from rfl) (fun _ => rfl) fun _ => rfl

theorem ofStore {r : Except StoreError α} {r' : Except StoreError β} (same : Agree ρ r r') :
    Twin timed strict R ρ (Action.ofStore r) (Action.ofStore r') :=
  of_result same (fun w => result_ofStore w r) fun w => result_ofStore w r'

theorem ofChange (r : Except ApplyError α) : Twin timed strict R Eq (Action.ofChange r) (Action.ofChange r) :=
  of_result ((Agree.refl r).mapError _) (fun w => result_ofChange w r) fun w => result_ofChange w r

theorem nextId : Twin timed strict R Eq Action.nextId Action.nextId := by
  intro w w' pair
  have same : ∀ {u : Workspace} (ids : IdSource), u.Orderly → Kept { u with ids } u := fun ids orderly =>
    ⟨orderly, rfl, fun unlocked => unlocked⟩
  refine ⟨⟨?_, pair.current⟩, same _ pair.orderly, same _ pair.orderly', ?_, pair.clocks⟩
  · exact congrArg (fun ids : IdSource => ids.next.1) pair.ids
  · exact congrArg (fun ids : IdSource => ids.next.2) pair.ids

theorem now : Twin timed strict R (fun t t' => timed → t = t') Action.now Action.now :=
  fun _ _ pair => ⟨⟨fun at_ => congrArg Clock.now (pair.clocks at_), pair.current⟩, .read pair.orderly, .read pair.orderly', pair.ids,
    fun at_ => congrArg Clock.rest (pair.clocks at_)⟩

theorem read {g : Database → Except EngineError α} {g' : Database → Except EngineError β}
    (same : ∀ db db', R db db' → Agree ρ (g db) (g' db')) : Twin timed strict R ρ (Action.read g) (Action.read g') :=
  fun _ _ pair => .read pair (same _ _ pair.current)

theorem write {g : Database → Except EngineError (α × Database)} {g' : Database → Except EngineError (β × Database)}
    (same : ∀ db db', R db db' → Agree (fun p p' => ρ p.1 p'.1 ∧ R p.2 p'.2) (g db) (g' db')) :
    Twin timed strict R ρ (Action.write g) (Action.write g') := fun _ _ pair => .write pair (same _ _ pair.current)

section
variable {name : CollectionName} {r r' : Resolver}

theorem rows {ρ : List Row → List Row → Prop} {s s' : Statement .rows} (same : ∀ db db', R db db' →
    Agree ρ ((db.run name r s).map (·.1)) ((db'.run name r' s').map (·.1))) :
    Twin timed strict R ρ (Action.execute name r s) (Action.execute name r' s') := read same

theorem number {s s' : Statement .number} (same : ∀ db db', R db db' →
    (db.run name r s).map (·.1) = (db'.run name r' s').map (·.1)) :
    Twin timed strict R Eq (Action.execute name r s) (Action.execute name r' s') := by
  have agree : ∀ db db', R db db' → Agree Eq ((db.run name r s).map (·.1)) ((db'.run name r' s').map (·.1)) := by
    intro db db' h
    rw [same db db' h]
    exact Agree.refl _
  exact read agree

theorem changed {s s' : Statement .changed} (same : ∀ db db', R db db' →
    Agree (fun p p' => p.1 = p'.1 ∧ R p.2 p'.2) (db.run name r s) (db'.run name r' s')) :
    Twin timed strict R Eq (Action.execute name r s) (Action.execute name r' s') := write same

end

/-- In levels of their own, what two actions do is kept in both runs or undone in both. -/
theorem transaction (h : Twin timed False R ρ a a') : Twin timed strict R ρ (Action.transaction a) (Action.transaction a') :=
  fun _ _ pair => .transaction pair fun v v' below _ _ _ _ => h v v' below

/-! ## Lists -/

theorem mapM {ι : Type} {g g' : ι → Action α} (each : ∀ i, Twin timed strict R Eq (g i) (g' i)) (l : List ι) :
    Twin timed strict R Eq (l.mapM g) (l.mapM g') := by
  induction l with
  | nil => exact pure rfl
  | cons i rest ih =>
    rw [List.mapM_cons, List.mapM_cons]
    refine (each i).bind ?_
    rintro x _ rfl
    refine ih.bind ?_
    rintro xs _ rfl
    exact pure rfl

theorem forM {ι : Type} {g g' : ι → Action Unit} (each : ∀ i, Twin timed strict R Eq (g i) (g' i)) (l : List ι) :
    Twin timed strict R Eq (l.forM g) (l.forM g') := by
  induction l with
  | nil => exact pure rfl
  | cons i rest ih => exact (each i).bind fun _ _ _ => ih

theorem foldlM {ι : Type} {g g' : α → ι → Action α} (each : ∀ x i, Twin timed strict R Eq (g x i) (g' x i)) (l : List ι)
    (start : α) : Twin timed strict R Eq (l.foldlM g start) (l.foldlM g' start) := by
  induction l generalizing start with
  | nil => exact pure rfl
  | cons i rest ih =>
    rw [List.foldlM_cons, List.foldlM_cons]
    refine (each start i).bind ?_
    rintro x _ rfl
    exact ih x

end Twin

end Action

end Dossier

/-! ## Steps inside a transaction -/

namespace Dossier.Action

open Outcome Workspace

variable {α β : Type} {clock next last : Clock} {db mid after : Database} {a : Action α} {f : α → Action β}

/-- Inside a transaction, by a clock and on a database, the action ends with `r` and leaves the clock `next` and the
database `after`. -/
def Runs (clock next : Clock) (db : Database) (a : Action α) (r : Except StoreError α) (after : Database) : Prop :=
  ∀ w : Workspace, w.Orderly → w.base.isSome → w.clock = clock → w.current = db →
    (a.result w).1 = r ∧ Kept (a.result w).2 w ∧ (a.result w).2.ids = w.ids ∧ (a.result w).2.clock = next
      ∧ (a.result w).2.current = after

namespace Runs

/-- Actions that tell a result and do nothing. -/
theorem of_result {r : Except StoreError α} (made : ∀ w, a.result w = (r, w)) : Runs clock clock db a r db := by
  rintro w orderly - rfl rfl
  rw [made]
  exact ⟨rfl, .refl orderly, rfl, rfl, rfl⟩

theorem pure (x : α) : Runs clock clock db (Pure.pure x : Action α) (.ok x) db := of_result fun _ => rfl

theorem throw (e : StoreError) : Runs clock clock db (MonadExcept.throw e : Action α) (.error e) db := of_result fun _ => rfl

theorem ofStore (r : Except StoreError α) : Runs clock clock db (Action.ofStore r) r db := of_result fun w => result_ofStore w r

theorem ofChange (r : Except ApplyError α) : Runs clock clock db (Action.ofChange r) (r.mapError .apply) db :=
  of_result fun w => result_ofChange w r

theorem now : Runs clock clock.rest db Action.now (.ok clock.now) db := by
  rintro w orderly - rfl rfl
  exact ⟨rfl, .read orderly, rfl, rfl, rfl⟩

theorem read {g : Database → Except EngineError α} {x : α} (made : g db = .ok x) : Runs clock clock db (Action.read g) (.ok x) db := by
  rintro w orderly - rfl rfl
  obtain ⟨answer, kept, seen⟩ := read_kept orderly g
  rw [made] at answer
  exact ⟨answer, kept, (Still.read g w).1, (Still.read g w).2, seen⟩

theorem write {g : Database → Except EngineError (α × Database)} {x : α} (made : g db = .ok (x, after)) :
    Runs clock clock db (Action.write g) (.ok x) after := by
  rintro w orderly inside rfl rfl
  rcases write_unlocked orderly (unlocked_of_base inside) g with ⟨e, failed, -⟩ | ⟨y, db', eq, ok, kept, seen⟩
  · rw [made] at failed
    cases failed
  · rw [made] at eq
    cases eq
    exact ⟨ok, kept, (Still.write g w).1, (Still.write g w).2, seen⟩

section
variable {name : CollectionName} {resolver : Resolver}

theorem rows {s : Statement .rows} {rows : List Row} {db' : Database} (made : db.run name resolver s = .ok (rows, db')) :
    Runs clock clock db (Action.execute name resolver s) (.ok rows) db := by
  have answer : (db.run name resolver s).map (·.1) = .ok rows := by rw [made]; rfl
  rw [Action.execute_eq_read name resolver s (by decide)]
  exact read answer

theorem number {s : Statement .number} {n : Int} {db' : Database} (made : db.run name resolver s = .ok (n, db')) :
    Runs clock clock db (Action.execute name resolver s) (.ok n) db := by
  have answer : (db.run name resolver s).map (·.1) = .ok n := by rw [made]; rfl
  rw [Action.execute_eq_read name resolver s (by decide)]
  exact read answer

theorem changed {s : Statement .changed} {n : Nat} (made : db.run name resolver s = .ok (n, after)) :
    Runs clock clock db (Action.execute name resolver s) (.ok n) after :=
  write (g := fun db => db.run name resolver s) made

end

theorem bind {x : α} {r : Except StoreError β} (first : Runs clock next db a (.ok x) mid) (later : Runs next last mid (f x) r after) :
    Runs clock last db (a >>= f) r after := by
  intro w orderly inside shows current
  obtain ⟨ok, kept, ids, shows', seen⟩ := first w orderly inside shows current
  have result : (a >>= f).result w = (f x).result (a.result w).2 := by
    rw [result_bind, show a.result w = (.ok x, (a.result w).2) from Prod.ext ok rfl]
  obtain ⟨ok', kept', ids', shows'', seen'⟩ := later _ kept.orderly (kept.base ▸ inside) shows' seen
  rw [result]
  exact ⟨ok', kept'.trans kept, ids'.trans ids, shows'', seen'⟩

theorem bind_error {e : StoreError} (first : Runs clock next db a (.error e) mid) : Runs clock next db (a >>= f) (.error e) mid := by
  intro w orderly inside shows current
  obtain ⟨failed, kept, ids, shows', seen⟩ := first w orderly inside shows current
  have result : (a >>= f).result w = (.error e, (a.result w).2) := by
    rw [result_bind, show a.result w = (.error e, (a.result w).2) from Prod.ext failed rfl]
  rw [result]
  exact ⟨rfl, kept, ids, shows', seen⟩

/-- A failure ends the whole. -/
theorem throw_bind (e : StoreError) (f : α → Action β) : Runs clock clock db (MonadExcept.throw e >>= f) (.error e) db :=
  bind_error (throw e)

/-- An action has one end. -/
theorem unique {r r' : Except StoreError α} {after' : Database} (one : Runs clock next db a r after)
    (other : Runs clock last db a r' after') : r = r' ∧ after = after' := by
  let w : Workspace := ⟨⟨⟨db, 0, some 0⟩, ⟨0, none⟩, some ⟨db, some 0, true, [], false⟩⟩, 1, 1, .start fun _ => "", [], clock⟩
  have orderly : w.Orderly := ⟨rfl, rfl, rfl, rfl, rfl⟩
  obtain ⟨made, -, -, -, seen⟩ := one w orderly rfl rfl rfl
  obtain ⟨made', -, -, -, seen'⟩ := other w orderly rfl rfl rfl
  exact ⟨made.symm.trans made', seen.symm.trans seen'⟩

/-- What is alike of an action is alike of one that ends as it does, the clock included if it is `timed`. -/
theorem matches_left {timed : Prop} {R : Database → Database → Prop} {ρ : α → β → Prop} {a b : Action α} {a' : Action β} {w w' : Workspace}
    {r : Except StoreError α} {after after' : Database} (orderly : w.Orderly) (inside : w.base.isSome)
    (one : Runs w.clock next w.current a r after) (other : Runs w.clock last w.current b r after') (read : timed → next = last)
    (same : ∀ x, r = .ok x → after = after') (h : Matches timed False R ρ b a' w w') : Matches timed False R ρ a a' w w' := by
  obtain ⟨made, kept, ids, shows, seen⟩ := one w orderly inside rfl rfl
  obtain ⟨made', -, ids', shows', seen'⟩ := other w orderly inside rfl rfl
  obtain ⟨ends, -, kept', taken, clocks⟩ := h
  refine ⟨?_, kept, kept', ids.trans (ids'.symm.trans taken),
    fun at_ => shows.trans ((read at_).trans (shows'.symm.trans (clocks at_)))⟩
  rw [show a.result w = (r, (a.result w).2) from Prod.ext made rfl]
  rw [show b.result w = (r, (b.result w).2) from Prod.ext made' rfl] at ends
  cases result : a'.result w' with
  | mk r' v' =>
    rw [result] at ends
    cases r <;> cases r'
    · exact ⟨ends.1, False.elim⟩
    · exact ends.elim
    · exact ends.elim
    · exact ⟨ends.1, by rw [seen, same _ rfl, ← seen']; exact ends.2⟩

end Runs

end Dossier.Action
