import Dossier.Proofs.Database.Standing
import Dossier.Proofs.Store.Mirror

/-!
# Promotions that are repeated on reachable stores

`Host.repeats_of_reached`: in every store that calls lead to, a promotion that has succeeded succeeds when it is called again
at once, with the same answer, and leaves the database as it is. So does a promotion of several paths.
-/

namespace Dossier

open Text Dossier.Action Outcome

namespace Collection

variable {c : Collection} {w v : Workspace} {db : Database} {unique : Bool}

/-- Promoting paths that stand promoted refreshes them, one after another. -/
theorem succeeds_refresh {promotions : List (FieldPath × PromotedColumn)} (mirroring : db.Mirroring)
    (standing : ∀ p ∈ promotions, db.Standing c.name unique p.1 p.2) :
    Succeeds db ((promotions.map Prod.fst).mapM fun p => c.promotePath p unique) (promotions.map Prod.snd)
      ((promotions.map Prod.fst).foldl (fun db path => db.refreshed c.name path) db) := by
  induction promotions generalizing db with
  | nil => exact Succeeds.pure _
  | cons p rest ih =>
    obtain ⟨here, later⟩ := List.forall_mem_cons.1 standing
    have again := here.again mirroring.installed.sound
    have made := (again 0).1
    have mirroring' := mirroring.promote here.target made
    obtain ⟨t, promoted⟩ := Database.exists_promotes mirroring.installed.sound made
    have kept := fun q mem => (promoted.keeps mirroring'.installed.sound here.admits (later q mem)).1
    rw [List.map_cons, List.mapM_cons]
    exact (c.succeeds_promotePath here.admits again).bind ((ih mirroring' kept).bind (Succeeds.pure _))

/-- Promoting paths that are settled, and making the index over them that is there, changes nothing. -/
theorem succeeds_promotePaths {promotions : List (FieldPath × PromotedColumn)} (mirroring : db.Mirroring)
    (settled : db.Settled c.name unique promotions) (indexed : db.createCompound c.name (promotions.map Prod.fst) = .ok db) :
    Succeeds db (c.promotePaths (promotions.map Prod.fst) unique) (promotions.map Prod.snd) db := by
  have columns : (promotions.map Prod.snd).map PromotedColumn.column = (promotions.map Prod.fst).map FieldPath.column := by
    rw [List.map_map, List.map_map]
    refine List.map_congr_left fun p mem => ?_
    obtain ⟨e, found, -, answer⟩ := (settled.standing p mem).entry
    have same : e.path = p.1 := by simpa using List.find?_some found
    rw [Function.comp, Function.comp, ← answer, Promotion.shown, e.named, same]
  have refreshed := succeeds_refresh mirroring settled.standing
  rw [settled.refreshed mirroring] at refreshed
  refine refreshed.bind ?_
  unfold Database.createCompound at indexed
  simp only [columns, List.length_map] at indexed ⊢
  split
  · rename_i several
    rw [if_pos several] at indexed
    exact (Succeeds.alter indexed).bind (Succeeds.pure _)
  · exact Succeeds.pure _

/-- A promotion that has succeeded succeeds once more, whatever the clock reads by then, and changes nothing. -/
theorem promote_again (orderly : w.Orderly) (mirroring : w.current.Mirroring) {path : String} {p : PromotedColumn}
    (made : (c.promote path unique).result w = (.ok p, v)) (clock : Clock) :
    ∃ u, (c.promote path unique).result { v with clock } = (.ok p, u) ∧ u.current = v.current ∧ u.base = v.base := by
  obtain ⟨q, v, events, parsed, level, rfl⟩ := c.promote_succeeds made
  have yields : Yields w.current (c.promotePath q unique) _ := c.yields_promotePath q unique
  obtain ⟨orderly', -, admits, time, promoted, rfl⟩ := yields.result_transaction orderly level
  have unlocked := yields.unlocked_of_transaction orderly level
  have mirroring' := mirroring.promote admits.target promoted
  have settled := (Database.settled_nil w.current c.name unique).promote mirroring.installed.sound mirroring'.installed.sound
    admits promoted
  have standing := settled.standing _ (List.mem_append_right _ (List.mem_singleton_self _))
  have runs := c.succeeds_promotePath standing.admits (standing.again mirroring'.installed.sound)
  have same : v.current.refreshed c.name q = v.current := settled.refreshed mirroring'
  rw [same] at runs
  have runs : Succeeds ({ v with events, clock } : Workspace).current (c.promotePath q unique)
    (v.current.promoted c.name q unique time) v.current := runs
  obtain ⟨u, ran, base, current⟩ := runs.result_transaction (w := { v with events, clock }) orderly' unlocked
  obtain ⟨events', last⟩ := c.promote_of_level parsed ran
  exact ⟨_, last, current, base⟩

/-- A promotion of several paths that has succeeded succeeds once more, whatever the clock reads by then, and changes nothing. -/
theorem promoteCompound_again (orderly : w.Orderly) (mirroring : w.current.Mirroring) {paths : List String}
    {ps : List PromotedColumn} (made : (c.promoteCompound paths unique).result w = (.ok ps, v)) (clock : Clock) :
    ∃ u, (c.promoteCompound paths unique).result { v with clock } = (.ok ps, u) ∧ u.current = v.current ∧ u.base = v.base := by
  obtain ⟨qs, v, events, parsed, single, level, rfl⟩ := c.promoteCompound_succeeds made
  have yields : Yields w.current (c.promotePaths qs unique) _ := c.yields_promotePaths qs unique
    (fun promotions db => db.Mirroring ∧ db.Settled c.name unique promotions) ⟨mirroring, Database.settled_nil ..⟩
    fun promotions db path time after ⟨mirroring, settled⟩ admits promoted =>
      have mirroring' := mirroring.promote admits.target promoted
      ⟨mirroring', settled.promote mirroring.installed.sound mirroring'.installed.sound admits promoted⟩
  obtain ⟨orderly', -, promotions, mid, ⟨mirroring, settled⟩, rfl, rfl, compound⟩ := yields.result_transaction orderly level
  have unlocked := yields.unlocked_of_transaction orderly level
  obtain ⟨mirroring', settled', again⟩ : v.current.Mirroring ∧ v.current.Settled c.name unique promotions
      ∧ v.current.createCompound c.name (promotions.map Prod.fst) = .ok v.current := by
    unfold Database.createCompound at compound ⊢
    split at compound
    · rename_i several
      rw [if_pos several]
      exact ⟨Database.lasting_mirroring.compounds _ _ _ _ mirroring compound, settled.createIndex rfl compound,
        (Database.createIndex_again compound).2⟩
    · rename_i few
      rw [if_neg few]
      cases compound
      exact ⟨mirroring, settled, rfl⟩
  have runs : Succeeds ({ v with events, clock } : Workspace).current (c.promotePaths (promotions.map Prod.fst) unique)
    (promotions.map Prod.snd) v.current := succeeds_promotePaths mirroring' settled' again
  obtain ⟨u, ran, base, current⟩ := runs.result_transaction (w := { v with events, clock }) orderly' unlocked
  obtain ⟨events', last⟩ := c.promoteCompound_of_level parsed single ran
  exact ⟨_, last, current, base⟩

end Collection

/-! ## Reachable stores -/

/-- In a store that starts without a database, wherever calls lead to: a promotion of a path or of several that succeeds does
so once more when it is called again at once, whatever the clock reads by then, with the same answer, the time of the first
promotion included; and it leaves what the session sees, rows, columns, triggers, indexes and registries, and what it can go
back to, exactly as they were. -/
theorem Host.repeats_of_reached {disk : Disk} {settings : Settings} {ids : IdSource} {clock : Clock}
    {requests : List StoreRequest} (fresh : ∀ e ∈ disk.entries, ∀ f, e.2 ≠ .database f)
    (calls : ∀ r ∈ requests, r.Within (· ≠ .freeze)) {h : Host}
    (reached : ((start disk settings ids clock).callAll requests).2 = h) {s : Store} (opened : h.store = some s)
    {name : String} {x : Session} (session : s.session? name = some x) (c : Collection) (unique : Bool) :
    (∀ path p v, (c.promote path unique).result (s.workspace x) = (.ok p, v) →
      ∀ clock, ∃ u, (c.promote path unique).result { v with clock } = (.ok p, u) ∧ u.current = v.current ∧ u.base = v.base)
    ∧ ∀ paths ps v, (c.promoteCompound paths unique).result (s.workspace x) = (.ok ps, v) →
      ∀ clock, ∃ u, (c.promoteCompound paths unique).result { v with clock } = (.ok ps, u) ∧ u.current = v.current
        ∧ u.base = v.base := by
  have good : h.Good Database.Mirroring := good_of_reached kept_mirroring fresh calls reached
  have here := good.workspace opened session
  exact ⟨fun _ _ _ made => Collection.promote_again here.orderly here.current made,
    fun _ _ _ made => Collection.promoteCompound_again here.orderly here.current made⟩

/-- The path `b.c`, promoted before, is made unique, and then once more at a later time; so it is with two paths together.
What they answer keeps the times of the first promotions. -/
theorem Host.repeats_of_reached_nested : ∃ s x p v u ps v' u', mirrored.store = some s ∧ s.session? "main" = some x
    ∧ (Collection.nested.promote "b.c" true).result (s.workspace x) = (.ok p, v)
    ∧ (Collection.nested.promote "b.c" true).result { v with clock := .still 7 } = (.ok p, u) ∧ u.current = v.current
    ∧ p.createdAt = 0
    ∧ (Collection.nested.promoteCompound ["c", "b.c"] false).result (s.workspace x) = (.ok ps, v')
    ∧ (Collection.nested.promoteCompound ["c", "b.c"] false).result { v' with clock := .still 7 } = (.ok ps, u')
    ∧ u'.current = v'.current ∧ ps.map PromotedColumn.createdAt = [0, 0] := by
  have evaluated : (mirrored.store.bind fun s => (s.session? "main").map fun x =>
      (((Collection.nested.promote "b.c" true).result (s.workspace x)).1.toOption.map PromotedColumn.createdAt,
        ((Collection.nested.promoteCompound ["c", "b.c"] false).result (s.workspace x)).1.toOption.map
          (List.map PromotedColumn.createdAt))) = some (some 0, some [0, 0]) := by decide +kernel
  obtain ⟨s, x, opened, session, eq⟩ := Host.exists_session_of_map evaluated
  obtain ⟨single, several⟩ := Prod.mk.inj eq
  obtain ⟨p, made, time⟩ := Option.map_eq_some_iff.1 single
  obtain ⟨ps, made', times⟩ := Option.map_eq_some_iff.1 several
  have calls : ∀ r ∈ [.reopen none, .promoteNested, .insertNested], StoreRequest.Within (· ≠ .freeze) r := by
    simp [StoreRequest.promoteNested, StoreRequest.insertNested, StoreRequest.Within, Request.Within]
  have repeats :=
    repeats_of_reached (Disk.start_fresh []) calls (h := mirrored) (by rw [mirrored, blank]) opened session Collection.nested
  have done : (Collection.nested.promote "b.c" true).result (s.workspace x) = (.ok p, _) := Prod.ext (eq_ok_of_toOption made) rfl
  have done' : (Collection.nested.promoteCompound ["c", "b.c"] false).result (s.workspace x) = (.ok ps, _) :=
    Prod.ext (eq_ok_of_toOption made') rfl
  obtain ⟨u, again, same, -⟩ := (repeats true).1 "b.c" p _ done (.still 7)
  obtain ⟨u', again', same', -⟩ := (repeats false).2 ["c", "b.c"] ps _ done' (.still 7)
  exact ⟨s, x, p, _, u, ps, _, u', opened, session, done, again, same, time, done', again', same', times⟩

end Dossier
