import Dossier.Proofs.Collection.Checking
import Dossier.Proofs.Session.Writes
import Dossier.Proofs.Store.Identity
import Dossier.Proofs.Store.Unique

/-!
# What checks let pass

`Collection.matches_of_addCheck`: once a check is registered whose expression is a formula over the fields of bodies, calls that
give rows of the collection only bodies that the formula admits do what they would do without the check. `Host.unadmitted` is
a check of a system column, which no insertion passes.
-/

namespace Dossier

open Text Dossier.Action Database Workspace Outcome

namespace Collection

variable {c : Collection} {w v : Workspace} {φ : Formula}

/-! ## Insertions -/

theorem writes_prepare (document : Json) (w : Workspace) : Writes (prepare document) w [] := by
  refine (writes_ofStore _ w).bind_silent fun made v => ?_
  obtain ⟨supplied, body⟩ := made
  cases supplied with
  | some value => exact (writes_ofStore _ v).bind_silent fun id u => .pure _ u
  | none => exact (Writes.nextId v).bind_silent fun id u => .pure _ u

/-- An insertion of a document gives its body to a row. -/
theorem writes_insertOne {document : Json} {d : NewDocument} (prepared : (prepare document).result w = (.ok d, v)) :
    Writes (c.insertOne document) w ((Body.ofText? (Json.object d.body).text).toList.map (c.name, ·)) := by
  have stated : Writes (c.execute (.insert d.id (Json.object d.body).text v.clock.now)) { v with clock := v.clock.rest }
      ((Body.ofText? (Json.object d.body).text).toList.map (c.name, ·)) := .execute c.name c.resolver _ _
  have inserted : Writes (c.insert d) v ((Body.ofText? (Json.object d.body).text).toList.map (c.name, ·)) :=
    .bind (.now v) rfl (stated.bind_silent fun _ u => .pure _ u)
  exact .bind (writes_prepare document w) prepared (inserted.bind_silent fun _ u => .pure _ u)

end Collection

/-! ## Registered checks -/

/-- After the registration of a check, with whatever else has happened since: at any time, calls on documents do with its triggers
what they do without them, if all bodies that they give to rows of its collection without them are admitted by the formula that the
expression is. The registration itself changes nothing but triggers of their names and the registry. -/
theorem Collection.matches_of_addCheck {c : Collection} {path expression : String} {φ : Formula}
    (formula : Raw.formula? (trim expression) = some φ) (apart : Raw.numbersApart (Sql.tokens (trim expression).toList) = true)
    {w v : Workspace} (orderly : w.Orderly) {check : CheckConstraint} (added : (c.addCheck path expression).result w = (.ok check, v)) :
    ∃ gs : List Trigger, gs.map Trigger.name = [check.name ++ "__insert", check.name ++ "__update"]
      ∧ Spared gs v.current { w.current with triggers := w.current.triggers.filter fun g => !g.namedIn gs }
      ∧ ((∀ g ∈ w.current.triggers, g.namedIn gs = false) → Pair True (Spared gs) v { w with clock := v.clock })
      ∧ ∀ u u' : Workspace, Pair True (Spared gs) u u' → ∀ (d : Collection) (r : CollectionRequest), r.onDocuments = true →
        (∃ written, Writes (r.perform d) u' written)
        ∧ ∀ written, Writes (r.perform d) u' written →
          (∀ p ∈ written, sameName c.name.text p.1.text = true → φ.Admits p.2) →
          Action.Matches True True (Spared gs) Eq (r.perform d) (r.perform d) u u' := by
  obtain ⟨unlocked, kept, ids, q, gs, name, registers⟩ := c.addCheck_kept orderly added
  have asks := Check.asks_of_triggers? formula apart registers.triggers
  refine ⟨gs, ?_, registers.spared, fun fresh => ?_, fun u u' pair d r onDocuments => ⟨?_, fun written writes admits => ?_⟩⟩
  · obtain ⟨e, -, rfl⟩ := Check.triggers?_eq_some registers.triggers
    rw [name]
    rfl
  · refine ⟨kept.orderly, orderly, kept.unlocked unlocked, unlocked, by rw [kept.base]; rfl, ids, fun _ => rfl, ?_⟩
    have spared := registers.spared
    rwa [List.filter_eq_self.2 fun g mem => by rw [fresh g mem]; rfl] at spared
  · exact (r.plain_perform d onDocuments).exists_writes u'
  · refine (writes.matches_or_refused (fun g mem => ⟨φ, _, asks g mem⟩) pair).resolve_right ?_
    rintro ⟨p, mem, on, e, ⟨g, own, ψ, message, asked, refuses, -⟩, -⟩
    exact refuses ((asks g own).admits asked (admits p mem on))

/-- A document with a number that is greater than zero. -/
def Json.positive : Json := .object [("_id", .string "x"), ("a", .number (.whole ⟨1, Whole.bounds_one⟩))]

theorem Collection.matches_of_addCheck_positive : ∃ s x v check, Host.entered.store = some s ∧ s.session? "main" = some x
    ∧ (entries.addCheck "a" "a > 0").result (s.workspace x) = (.ok check, v)
    ∧ v.current.triggers.length = 2 ∧ ((entries.insertOne .positive).result v).1 = .ok "x" := by
  have evaluated : (Host.entered.store.bind fun s => (s.session? "main").bind fun x =>
      let added := (entries.addCheck "a" "a > 0").result (s.workspace x)
      let later := { s.workspace x with clock := added.2.clock }
      ((prepare .positive).result later).1.toOption.bind fun d =>
      (Body.ofText? (Json.object d.body).text).bind fun b => (Raw.formula? (trim "a > 0")).map fun φ =>
      (φ.truth? b, added.1.toOption.isSome, added.2.current.triggers.length, (s.workspace x).current.triggers.length,
        ((entries.insertOne .positive).result later).1.toOption))
      = some (some (some true), true, 2, 0, some "x") := by decide +kernel
  obtain ⟨s, x, opened, session, found⟩ := Host.exists_session_of_bind evaluated
  obtain ⟨d, prepared, found⟩ := Option.bind_eq_some_iff.1 found
  obtain ⟨b, body, found⟩ := Option.bind_eq_some_iff.1 found
  obtain ⟨φ, formula, eq⟩ := Option.map_eq_some_iff.1 found
  obtain ⟨truth, eq⟩ := Prod.mk.inj eq
  obtain ⟨accepted, eq⟩ := Prod.mk.inj eq
  obtain ⟨standing, eq⟩ := Prod.mk.inj eq
  obtain ⟨bare, inserted⟩ := Prod.mk.inj eq
  have orderly : (s.workspace x).Orderly := by
    have calls : ∀ r ∈ StoreRequest.entering, r.Within fun _ => True := by
      simp [StoreRequest.entering, StoreRequest.Within, Request.Within]
    have good : Host.entered.Good Numbered :=
      Host.good_of_reached kept_numbered (Disk.start_fresh []) calls (by rw [Host.entered, Host.blank])
    exact (good.workspace opened session).orderly
  cases made : (entries.addCheck "a" "a > 0").result (s.workspace x) with
  | mk answer v =>
    rw [made] at accepted standing prepared inserted
    obtain ⟨check, given⟩ := Option.isSome_iff_exists.1 accepted
    cases eq_ok_of_toOption given
    obtain ⟨gs, -, -, pair, alike⟩ := matches_of_addCheck formula (by decide +kernel) orderly made
    have writes : Writes ((CollectionRequest.insertOne .positive).perform entries)
        { s.workspace x with clock := v.clock } [(entries.name, b)] := by
      have once := writes_insertOne (c := entries) (Prod.ext (eq_ok_of_toOption prepared) rfl)
      rw [body] at once
      exact once.bind_silent fun _ u => .pure _ u
    have admits : ∀ p ∈ [(entries.name, b)], sameName entries.name.text p.1.text = true → φ.Admits p.2 := by
      intro p mem _
      obtain rfl := List.mem_singleton.1 mem
      exact ⟨_, truth, by decide⟩
    have none : ∀ g ∈ (s.workspace x).current.triggers, g.namedIn gs = false := by
      rw [List.length_eq_zero_iff.1 bare]
      exact fun g mem => absurd mem List.not_mem_nil
    have same := ((alike v _ (pair none) entries (.insertOne .positive) rfl).2 _ writes admits).ends
    rw [CollectionRequest.perform, result_map, result_map, eq_ok_of_toOption inserted, map_ok] at same
    refine ⟨s, x, v, check, opened, session, made, standing, ?_⟩
    cases answered : ((entries.insertOne .positive).result v).1 with
    | error e =>
      rw [answered, map_error] at same
      exact same.elim
    | ok id =>
      rw [answered, map_ok] at same
      exact congrArg Except.ok (CollectionReply.inserted.inj same.1)

/-- A check of a system column is registered, and the engine then finds no such column at any insertion. -/
theorem Host.unadmitted : ∃ s x check v, entered.store = some s ∧ s.session? "main" = some x
    ∧ (Collection.entries.addCheck "a" "created_at > 0").result (s.workspace x) = (.ok check, v)
    ∧ ((Collection.entries.insertOne .positive).result (s.workspace x)).1 = .ok "x"
    ∧ ((Collection.entries.insertOne .positive).result v).1 = .error (.ofEngine (.failure "no such column")) := by
  have evaluated : (entered.store.bind fun s => (s.session? "main").map fun x =>
      let added := (Collection.entries.addCheck "a" "created_at > 0").result (s.workspace x)
      (added.1.toOption.isSome, ((Collection.entries.insertOne .positive).result (s.workspace x)).1,
        ((Collection.entries.insertOne .positive).result added.2).1))
      = some (true, .ok "x", .error (.ofEngine (.failure "no such column"))) := by decide +kernel
  obtain ⟨s, x, opened, session, eq⟩ := Host.exists_session_of_map evaluated
  cases made : (Collection.entries.addCheck "a" "created_at > 0").result (s.workspace x) with
  | mk answer v =>
    rw [made] at eq
    obtain ⟨accepted, eq⟩ := Prod.mk.inj eq
    obtain ⟨without, refused⟩ := Prod.mk.inj eq
    obtain ⟨check, given⟩ := Option.isSome_iff_exists.1 accepted
    cases eq_ok_of_toOption given
    exact ⟨s, x, check, v, opened, session, made, without, refused⟩

end Dossier
