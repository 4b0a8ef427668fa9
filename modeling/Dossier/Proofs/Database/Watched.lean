import Dossier.Proofs.Session.Writes

/-!
# Bodies that triggers let pass

`Database.Watches`: triggers ask a formula of every body that a row of the table is given. A statement that does not fail gives
such rows only bodies that the formula admits (`Database.Watches.admits`), and so does an action (`Action.Writes.admits`).
-/

namespace Dossier

open Text Sql Outcome

/-- In a run that does not fail no step fails. -/
theorem Outcome.forall_of_foldlM {α β ε : Type} {f : β → α → Except ε β} {Q : α → Prop} {l : List α}
    (step : ∀ x ∈ l, ∀ y y', f y x = .ok y' → Q x) {y y' : β} (made : l.foldlM f y = .ok y') : ∀ x ∈ l, Q x := by
  induction l generalizing y with
  | nil => exact fun x mem => absurd mem List.not_mem_nil
  | cons x rest ih =>
    rw [List.foldlM_cons] at made
    obtain ⟨mid, first, later⟩ := bind_eq_ok.1 made
    exact List.forall_mem_cons.2 ⟨step x List.mem_cons_self y mid first,
      ih (fun z mem => step z (List.mem_cons_of_mem _ mem)) later⟩

theorem Outcome.forall_of_forM {α ε : Type} {f : α → Except ε Unit} {l : List α} (made : l.forM f = .ok ()) :
    ∀ x ∈ l, f x = .ok () := by
  induction l with
  | nil => exact fun x mem => absurd mem List.not_mem_nil
  | cons x rest ih =>
    obtain ⟨_, first, later⟩ := bind_eq_ok.1 made
    exact List.forall_mem_cons.2 ⟨first, ih later⟩

namespace Database

variable {db after : Database} {table other : String} {name : CollectionName} {φ : Formula} {t : Table}

/-- For each way in which a row of the table gets a body there is a trigger that asks the formula of the body. -/
def Watches (db : Database) (table : String) (φ : Formula) : Prop :=
  ∀ change ∈ [RowChange.insert, .bodyUpdate], ∃ g ∈ db.triggers, g.event.awaits change = true ∧ ∃ message, g.Asks φ table message

namespace Watches

/-- Where triggers are triggers of another database, so does that. -/
theorem congr (h : db.Watches table φ) (same : ∀ g ∈ db.triggers, g ∈ after.triggers) : after.Watches table φ :=
  fun change mem => have ⟨g, here, asks⟩ := h change mem; ⟨g, same g here, asks⟩

/-- One of the triggers that are ready weighs the body. -/
theorem exists_ready (h : db.Watches table φ) (on : sameName table t.name = true) {change : RowChange}
    (mem : change ∈ [RowChange.insert, .bodyUpdate]) {ps : List Trigger} (made : db.ready t change = .ok ps) :
    ∃ p ∈ ps, ∃ message, p.Weighs φ message := by
  obtain ⟨g, here, awaits, message, asks⟩ := h change mem
  have waiting : g ∈ (db.triggersOn t.name).filter fun g => g.event.awaits change :=
    List.mem_filter.2 ⟨List.mem_filter.2 ⟨here, asks.on ▸ on⟩, awaits⟩
  obtain ⟨p, ready, prepared⟩ := exists_of_mem_mapM made waiting
  obtain ⟨q, again, weighs⟩ := asks.prepare t
  cases prepared.symm.trans again
  exact ⟨p, ready, message, weighs⟩

/-- A body that the triggers let pass is admitted. -/
theorem admits_of_before (h : db.Watches table φ) (on : sameName table t.name = true) {change : RowChange}
    (mem : change ∈ [RowChange.insert, .bodyUpdate]) {ps : List Trigger} (made : db.ready t change = .ok ps)
    {read : Place → Value} {b : Body} (body : read ⟨.current, .data⟩ = .text b.text)
    (passed : ps.forM (Trigger.before read) = .ok ()) : φ.Admits b := by
  obtain ⟨p, ready, message, weighs⟩ := h.exists_ready on mem made
  by_contra refuses
  have stopped := weighs.before_of_not_admits body refuses
  rw [forall_of_forM passed p ready] at stopped
  cases stopped

theorem insertRow (h : db.Watches table φ) (same : sameName table other = true) {id body : String} {now : Int}
    (made : db.insertRow other id body now = .ok after) : ∀ b ∈ (Body.ofText? body).toList, φ.Admits b := by
  obtain ⟨t, found, made⟩ := bind_eq_ok.1 made
  obtain ⟨ps, ready, made⟩ := bind_eq_ok.1 made
  obtain ⟨b, valid, made⟩ := bind_eq_ok.1 made
  obtain ⟨_, passed, -⟩ := bind_eq_ok.1 made
  have on := sameName_trans same (sameName_symm (mem_of_table? (tableOf_eq_ok.1 found)).2)
  rw [validBody_eq_ok valid]
  exact List.forall_mem_singleton.2 (h.admits_of_before on (by simp) ready rfl passed)

theorem updateRows (h : db.Watches table φ) (same : sameName table other = true)
    {changes : Table → Except EngineError (List (Row × Row))} {n : Nat} (made : db.updateRows other changes = .ok (n, after)) :
    ∀ b ∈ db.given other changes, φ.Admits b := by
  obtain ⟨t, found, made⟩ := bind_eq_ok.1 made
  obtain ⟨ps, ready, made⟩ := bind_eq_ok.1 made
  obtain ⟨cs, changed, made⟩ := bind_eq_ok.1 made
  obtain ⟨last, folded, -⟩ := bind_eq_ok.1 made
  have on := sameName_trans same (sameName_symm (mem_of_table? (tableOf_eq_ok.1 found)).2)
  rw [given_eq found changed]
  refine List.forall_mem_map.2 (forall_of_foldlM (fun c _ mid next step => ?_) folded)
  obtain ⟨_, passed, -⟩ := bind_eq_ok.1 step
  exact h.admits_of_before on (by simp) ready rfl passed

/-- A statement that does not fail gives rows of the table only bodies that the formula admits. -/
theorem admits (h : db.Watches table φ) (same : sameName table name.text = true) {r : Resolver} {a : Answer} {s : Statement a}
    {x : a.Carrier} (made : db.run name r s = .ok (x, after)) : ∀ b ∈ db.bodiesOf name s, φ.Admits b := by
  replace made := answer_of_run made
  cases s with
  | change | overwrite => exact h.updateRows same made
  | insert id body now =>
    obtain ⟨last, inserted, -⟩ := bind_eq_ok.1 made
    exact h.insertRow same inserted
  | find | findRaw | fetch | count | countTargets | guard | delete => exact fun b mem => absurd mem List.not_mem_nil

end Watches

/-- A statement that writes leaves the triggers. -/
theorem Watches.run (h : db.Watches table φ) {r : Resolver} {s : Statement .changed} {n : Nat}
    (made : db.run name r s = .ok (n, after)) : after.Watches table φ :=
  h.congr fun g mem => by rw [(Gave.run made).rest]; exact mem

end Database

open Workspace

/-- An action that does not fail gives rows of the table only bodies that the formula admits, and leaves the triggers. -/
theorem Action.Writes.admits {table : String} {φ : Formula} {α : Type} {a : Action α} {w v : Workspace}
    {written : List (CollectionName × Body)} (writes : Writes a w written) (orderly : w.Orderly)
    (watches : w.current.Watches table φ) {x : α} (made : a.result w = (.ok x, v)) :
    (v.Orderly ∧ v.base = w.base ∧ v.current.Watches table φ)
      ∧ ∀ p ∈ written, sameName table p.1.text = true → φ.Admits p.2 := by
  induction writes generalizing v with
  | pure | nextId | now =>
    cases made
    exact ⟨⟨orderly, rfl, watches⟩, fun p mem => absurd mem List.not_mem_nil⟩
  | throw e => cases made
  | @execute name r answer s w =>
    have done : ∀ y after, w.current.run name r s = .ok (y, after) →
        ∀ p ∈ (w.current.bodiesOf name s).map (name, ·), sameName table p.1.text = true → φ.Admits p.2 := by
      intro y after ran
      rw [List.forall_mem_map]
      exact fun b mem same => watches.admits same ran b mem
    cases answer with
    | changed =>
      have made : (Action.write fun db => db.run name r s).result w = (.ok x, v) := made
      rcases write_spec orderly (fun db => db.run name r s) with ⟨e, failed, -⟩ | ⟨y, db, ran, -, orderly', base, current⟩
      · cases failed.symm.trans made
      · rw [made] at orderly' base current
        exact ⟨⟨orderly', base, current ▸ watches.run ran⟩, done y db ran⟩
    | rows | number =>
      have made : (Action.read fun db => (db.run name r s).map (·.1)).result w = (.ok x, v) := made
      obtain ⟨answer, same⟩ := read_spec orderly fun db => (db.run name r s).map (·.1)
      rw [made] at answer same
      obtain ⟨⟨y, after⟩, ran, -⟩ := map_eq_ok.1 (eq_ok_of_mapError answer.symm)
      exact ⟨⟨same.orderly orderly, same.base, same.current ▸ watches⟩, done y after ran⟩
  | @bind α β a f w v' x written more here ran next first later =>
    obtain ⟨y, u, one, rest⟩ := result_bind_eq_ok.1 made
    cases ran.symm.trans one
    obtain ⟨⟨orderly', base, watches'⟩, admitted⟩ := first orderly watches ran
    obtain ⟨⟨orderly'', base', watches''⟩, admitted'⟩ := later orderly' watches' rest
    exact ⟨⟨orderly'', base'.trans base, watches''⟩, List.forall_mem_append.2 ⟨admitted, admitted'⟩⟩
  | stop here failed first =>
    obtain ⟨y, u, one, -⟩ := result_bind_eq_ok.1 made
    cases failed.symm.trans one
  | @transaction α a w v' written begun inside ih =>
    obtain ⟨orderly', -, current, -, -, level⟩ := level_of_begun (α := α) orderly begun
    cases ran : a.result v' with
    | mk answer u =>
      cases answer with
      | error e =>
        rw [result_transaction, begun] at made
        simp only [ran] at made
        cases made
      | ok y =>
        obtain ⟨⟨orderly'', base, watches'⟩, admitted⟩ := ih orderly' (current ▸ watches) ran
        obtain ⟨t, closed, ordered, bottom, -, -, -, seen⟩ := level a (by rw [ran]; exact orderly'') (by rw [ran]; exact base)
        rw [ran] at closed seen
        cases closed.symm.trans made
        exact ⟨⟨ordered, bottom, seen ▸ watches'⟩, admitted⟩
  | barred failed =>
    rw [result_transaction, failed] at made
    cases made

end Dossier
