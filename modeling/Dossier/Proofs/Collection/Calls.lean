import Dossier.Proofs.Collection.Strategies
import Dossier.Proofs.Collection.Twin
import Dossier.Proofs.Update.Steps

/-!
# Calls of twin collections

An update of a collection without promoted paths is made in place, and of its twin it may be made document by document.
`Collection.matches_runUpdate`: it ends alike in both if the documents that it changes are settled.

`CollectionRequest.matches_perform`: a call on documents is answered alike, times aside, where nothing is promoted and
where some paths are, if the documents that it changes at those paths are settled.
-/

namespace Dossier

open Outcome Database Dossier.Action

/-! ## Updates -/

namespace Collection

variable {timed strict : Prop} {name : CollectionName} {resolver resolver' : Resolver} {f : Filter} {u : Update}
  {cardinality : Cardinality} {w w' : Workspace}

/-! ### One strategy on both sides -/

section
variable (apt : timed ∨ f.Timeless)

include apt

theorem twin_updateInPlace {c : Changes} (fit : c.Fit (f.predicate resolver) cardinality)
    (fit' : c.Fit (f.predicate resolver') cardinality) : Twin timed strict (Twins name timed resolver resolver') Eq
    (updateInPlace ⟨name, resolver⟩ f c cardinality) (updateInPlace ⟨name, resolver'⟩ f c cardinality) := by
  have rest : Twin timed strict (Twins name timed resolver resolver') Eq (do
      let matched ← execute ⟨name, resolver⟩ (.countTargets (f.predicate resolver) cardinality)
      let modified ← execute ⟨name, resolver⟩ (.change c (f.predicate resolver) cardinality (← now))
      return (matched.toNat, modified)) (do
      let matched ← execute ⟨name, resolver'⟩ (.countTargets (f.predicate resolver') cardinality)
      let modified ← execute ⟨name, resolver'⟩ (.change c (f.predicate resolver') cardinality (← now))
      return (matched.toNat, modified)) := by
    refine (Twin.number fun db db' h => h.countTargets apt cardinality fit.delete fit'.delete).bind ?_
    rintro matched _ rfl
    refine Twin.now.bind fun now now' times => ?_
    refine (Twin.changed fun db db' h => h.change apt c cardinality times (fit.change now) (fit'.change now')).bind ?_
    rintro modified _ rfl
    exact .pure rfl
  unfold updateInPlace
  simp only [Statement.guard?]
  by_cases empty : c.guards.isEmpty = true
  · simp only [empty, if_true]
    exact rest
  · simp only [empty, Bool.false_eq_true, if_false]
    have one := fit.search (.guard c.guards (f.predicate resolver) cardinality) (if_neg empty)
    have other := fit'.search (.guard c.guards (f.predicate resolver') cardinality) (if_neg empty)
    refine (Twin.number fun db db' h => h.guard apt c.guards cardinality one other).bind ?_
    rintro code _ rfl
    split
    · split
      · exact (Twin.throw (ρ := Eq) _).bind fun _ _ _ => rest
      · exact rest
    · exact rest

variable (strict cardinality) in
theorem twin_overwriteMatching (u : Update) (fits : (f.predicate resolver).Fits)
    (fits' : (f.predicate resolver').Fits) : Twin timed strict (Twins name timed resolver resolver') Eq
    (overwriteMatching ⟨name, resolver⟩ f u cardinality) (overwriteMatching ⟨name, resolver'⟩ f u cardinality) := by
  have one : ∀ now now' : Int, (timed → now = now') → ∀ (count : Nat) (d : String × Fields),
      Twin timed strict (Twins name timed resolver resolver') Eq (overwriteOne ⟨name, resolver⟩ u now count d)
        (overwriteOne ⟨name, resolver'⟩ u now' count d) := by
    intro now now' times count d
    refine (Twin.ofChange _).bind ?_
    rintro body _ rfl
    split
    · exact .pure rfl
    · exact (Twin.changed fun db db' h => h.overwrite d.1 _ times).bind fun _ _ _ => .pure rfl
  refine (Twin.rows fun db db' (h : Twins name timed resolver resolver' db db') =>
    h.fetch apt cardinality fits fits').bind ?_
  intro rows rows' alike
  have bodies : (rows.mapM fun r => do return (r.id, ← r.data.decode))
      = (rows'.mapM fun r => do return (r.id, ← r.data.decode) : Except StoreError (List (String × Fields))) := by
    refine Agree.eq ?_
    have each := Agree.mapM (σ := Eq) (f := fun r => do return (r.id, ← r.data.decode))
      (g := fun r : Row => do return ((r.id, ← r.data.decode) : String × Fields)) (ε := StoreError) alike fun r r' alike => by
        rw [alike.twin.id, alike.twin.data]
        exact Agree.refl _
    simpa only [List.forall₂_eq_eq_eq] using each
  rw [bodies]
  refine (Twin.ofStore (Agree.refl _)).bind ?_
  rintro ds _ rfl
  refine Twin.now.bind fun now now' times => ?_
  refine (Twin.foldlM (one now now' times) ds 0).bind ?_
  rintro modified _ rfl
  exact .pure (Prod.ext alike.length_eq rfl)

end

theorem twin_upsert (f : Filter) (u : Update) : Twin timed strict (Twins name timed resolver resolver') Eq
    (upsert ⟨name, resolver⟩ f u) (upsert ⟨name, resolver'⟩ f u) := by
  have rest : ∀ (id : String) (body : Fields), Twin timed strict (Twins name timed resolver resolver') Eq
      (do insert ⟨name, resolver⟩ ⟨id, body⟩; return id) (do insert ⟨name, resolver'⟩ ⟨id, body⟩; return id) :=
    fun id body => (twin_insert ⟨id, body⟩).bind fun _ _ _ => .pure rfl
  refine (Twin.ofStore (Agree.refl _)).bind ?_
  rintro ⟨supplied, body⟩ _ rfl
  cases supplied with
  | some id => exact rest id body
  | none =>
    refine Twin.nextId.bind ?_
    rintro id _ rfl
    exact rest id body

/-! ### Different strategies -/

/-- The documents that an update changes at promoted paths, in a collection where nothing is promoted, are settled. -/
def Settles (collection : String) (promoted : Resolver) (f : Filter) (cardinality : Cardinality) (u : Update)
    (db : Database) : Prop :=
  ∀ c, u = .change c → c.paths.any promoted.touches = true → ∀ t, db.table? collection = some t →
    AllSettled c (t.targets (f.predicate ⟨[]⟩) cardinality)

/-- A table that has just been made has no documents. -/
theorem Settles.createTable {db after : Database} (h : Settles name.text resolver f cardinality u db)
    (made : db.createTable name = .ok after) : Settles name.text resolver f cardinality u after := by
  unfold Database.createTable at made
  split at made
  · cases made
    exact h
  · rename_i missing
    split at made
    · cases made
    · cases made
      intro c _ _ t found
      have none_ : db.tables.find? (fun t => Text.sameName t.name name.text) = none := by
        simpa [Database.table?] using missing
      obtain rfl : t = ⟨name.text, [], []⟩ := by
        simpa [Database.table?, none_, Text.sameName_refl, eq_comm] using found
      cases cardinality <;> simp [AllSettled, Table.targets, Table.select]

/-- The steps of an update by the strategy that the promoted paths call for. -/
def strategy (c : Collection) (f : Filter) (u : Update) (cardinality : Cardinality) : Action (Nat × Nat) :=
  match u.inPlace? c.resolver with
  | some changes => c.updateInPlace f changes cardinality
  | none => c.overwriteMatching f u cardinality

/-- What an update does after it has changed what it matches. -/
def insertMissing (c : Collection) (f : Filter) (u : Update) (wanted : Bool) (counts : Nat × Nat) : Action UpdateResult :=
  (if counts.1 = 0 && wanted then some <$> c.upsert f u else pure none) >>= fun upserted =>
    pure ⟨counts.1, counts.2, upserted⟩

theorem insertMissing_eq (c : Collection) (f : Filter) (u : Update) (wanted : Bool) :
    (fun counts : Nat × Nat => match counts with
      | (matched, modified) => if (decide (matched = 0) && wanted) = true then do
          let upserted ← some <$> c.upsert f u
          return UpdateResult.mk matched modified upserted
        else do
          let upserted ← pure none
          return UpdateResult.mk matched modified upserted) = c.insertMissing f u wanted := by
  funext ⟨matched, modified⟩
  unfold insertMissing
  cases missing : decide (matched = 0) && wanted <;> simp only [missing] <;> rfl

theorem runUpdate_eq (c : Collection) (f : Filter) (u : Update) (cardinality : Cardinality) (wanted : Bool) :
    c.runUpdate f u cardinality wanted = transaction (c.strategy f u cardinality >>= c.insertMissing f u wanted) := by
  unfold runUpdate strategy
  rw [← insertMissing_eq]
  congr 1
  cases u.inPlace? c.resolver <;> rfl

theorem inPlace?_empty (c : Changes) : (Update.change c).inPlace? ⟨[]⟩ = some c := by
  simp [Update.inPlace?, Resolver.touches]

/-- Where nothing is promoted on one side, the strategies of both sides end alike inside a transaction. -/
theorem matches_strategy (apt : timed ∨ f.Timeless) (fit : u.Fit (f.predicate ⟨[]⟩) cardinality) (apart : ∀ c, u = .change c → Changes.conflict? c.paths = none)
    (pair : Workspace.Pair timed (Twins name timed ⟨[]⟩ resolver') w w') (inside : w.base.isSome)
    (still : timed → ∃ time, w.clock = .still time) (settles : Settles name.text resolver' f cardinality u w.current) :
    Matches timed False (Twins name timed ⟨[]⟩ resolver') Eq (strategy ⟨name, ⟨[]⟩⟩ f u cardinality)
      (strategy ⟨name, resolver'⟩ f u cardinality) w w' := by
  have fetch : (f.predicate ⟨[]⟩).Fits := by
    cases u with
    | replace body => exact fit
    | change c => exact Changes.Fit.reads fit
  have overwriting := twin_overwriteMatching False cardinality apt u fetch (fetch.within (f.within_predicate resolver'))
    w w' pair
  unfold strategy
  cases u with
  | replace body => exact overwriting
  | change c =>
    change c.Fit (f.predicate ⟨[]⟩) cardinality at fit
    rw [inPlace?_empty]
    by_cases touched : c.paths.any resolver'.touches = true
    · simp only [Update.inPlace?, touched, if_true]
      obtain ⟨t, _, found, -, -, -, ids⟩ := pair.current.tables
      obtain ⟨r, next, after, after', moves, one, other, same⟩ := runs_strategies cardinality w.clock (f := f)
        fit pair.current.left.lenient found ids (apart c rfl) (settles c rfl touched t found)
      -- where only one strategy has read the clock, a clock that stands still shows no difference
      have read : timed → next = w.clock.rest := fun at_ => by
        obtain ⟨time, stands⟩ := still at_
        rcases moves with rfl | rfl
        · rw [stands, Clock.rest_still]
        · rfl
      exact Runs.matches_left pair.orderly inside one other read same overwriting
    · simp only [Update.inPlace?, touched, Bool.false_eq_true, if_false]
      exact twin_updateInPlace apt fit (fit.within (f.within_predicate resolver')) w w' pair

theorem matches_runUpdate (apt : timed ∨ f.Timeless) (fit : u.Fit (f.predicate ⟨[]⟩) cardinality) (apart : ∀ c, u = .change c → Changes.conflict? c.paths = none)
    (pair : Workspace.Pair timed (Twins name timed ⟨[]⟩ resolver') w w') (still : timed → ∃ time, w.clock = .still time)
    (settles : Settles name.text resolver' f cardinality u w.current) (wanted : Bool) :
    Matches timed True (Twins name timed ⟨[]⟩ resolver') Eq (runUpdate ⟨name, ⟨[]⟩⟩ f u cardinality wanted)
      (runUpdate ⟨name, resolver'⟩ f u cardinality wanted) w w' := by
  rw [runUpdate_eq, runUpdate_eq]
  refine .transaction pair fun v v' below inside current _ clock => ?_
  refine (matches_strategy apt fit apart below inside (clock ▸ still) (current ▸ settles)).bind below ?_
  rintro counts _ rfl
  unfold insertMissing
  have upserted : Twin timed False (Twins name timed ⟨[]⟩ resolver') Eq
      (if counts.1 = 0 && wanted then some <$> upsert ⟨name, ⟨[]⟩⟩ f u else pure none)
      (if counts.1 = 0 && wanted then some <$> upsert ⟨name, resolver'⟩ f u else pure none) := by
    split
    · exact (twin_upsert f u).map fun _ _ => congrArg some
    · exact .pure rfl
  refine upserted.bind ?_
  rintro id _ rfl
  exact .pure rfl

end Collection

/-! ## All calls -/

namespace Collection

variable {timed : Prop} {name : CollectionName} {resolver' : Resolver} {filter : Json} {w w' : Workspace}

section
variable (apt : timed ∨ ∀ f, Filter.parse filter = .ok f → f.Timeless)
  (pair : Workspace.Pair timed (Twins name timed ⟨[]⟩ resolver') w w')

section
include apt pair

/-- A filter and an update are refused in both runs or in none. -/
theorem matches_readUpdate {update : Json} {g g' : Filter → Update → Action UpdateResult}
    (later : ∀ f u, Filter.parse filter = .ok f → Update.parse update = .ok u → timed ∨ f.Timeless →
      Matches timed True (Twins name timed ⟨[]⟩ resolver') Eq (g f u) (g' f u) w w') :
    Matches timed True (Twins name timed ⟨[]⟩ resolver') Eq (do g (← readFilter filter) (← ofRequest (Update.parse update)))
      (do g' (← readFilter filter) (← ofRequest (Update.parse update))) w w' :=
  .ofRequest_bind pair fun f read => .ofRequest_bind pair fun u parsed =>
    later f u read parsed (apt.imp_right fun timeless => timeless f read)

end

variable (still : timed → ∃ time, w.clock = .still time)

include apt pair still

theorem matches_updateOne {update : Json} (fit : ∀ f u, Filter.parse filter = .ok f → Update.parse update = .ok u →
    u.Fit (f.predicate ⟨[]⟩) .one) (settles : ∀ f u, Filter.parse filter = .ok f → Update.parse update = .ok u →
    Settles name.text resolver' f .one u w.current) (wanted : Bool) : Matches timed True (Twins name timed ⟨[]⟩ resolver') Eq
      (updateOne ⟨name, ⟨[]⟩⟩ filter update wanted) (updateOne ⟨name, resolver'⟩ filter update wanted) w w' := by
  refine matches_readUpdate apt pair fun f u read parsed apt => ?_
  have apart : ∀ c, u = .change c → Changes.conflict? c.paths = none := by
    rintro c rfl
    exact (Update.parse_change parsed).1
  exact matches_runUpdate apt (fit f u read parsed) apart pair still (settles f u read parsed) wanted

theorem matches_updateMany {update : Json} (fit : ∀ f u, Filter.parse filter = .ok f → Update.parse update = .ok u →
    u.Fit (f.predicate ⟨[]⟩) .many) (settles : ∀ f u, Filter.parse filter = .ok f → Update.parse update = .ok u →
    u.hasSet = true → Settles name.text resolver' f .many u w.current) (wanted : Bool) :
    Matches timed True (Twins name timed ⟨[]⟩ resolver') Eq
      (updateMany ⟨name, ⟨[]⟩⟩ filter update wanted) (updateMany ⟨name, resolver'⟩ filter update wanted) w w' := by
  refine matches_readUpdate apt pair fun f u read parsed apt => ?_
  have apart : ∀ c, u = .change c → Changes.conflict? c.paths = none := by
    rintro c rfl
    exact (Update.parse_change parsed).1
  cases sets : u.hasSet with
  | true => exact matches_runUpdate apt (fit f u read parsed) apart pair still (settles f u read parsed sets) wanted
  | false => exact .throw_bind pair _ _ _

theorem matches_replaceOne {replacement : Json} (fits : ∀ f, Filter.parse filter = .ok f →
    (f.predicate ⟨[]⟩).Fits) (wanted : Bool) : Matches timed True (Twins name timed ⟨[]⟩ resolver') Eq
    (replaceOne ⟨name, ⟨[]⟩⟩ filter replacement wanted) (replaceOne ⟨name, resolver'⟩ filter replacement wanted) w w' := by
  refine matches_readUpdate apt pair fun f u read _ apt => ?_
  cases u with
  | change c => exact Twin.throw _ _ _ pair
  | replace body => exact matches_runUpdate (u := .replace body) apt (fits f read) (fun _ eq => by cases eq) pair still (fun _ eq => by cases eq) wanted

end

end Collection

namespace CollectionRequest

/-- The documents that the call changes at promoted paths are settled. -/
def Settles (collection : String) (promoted : Resolver) (db : Database) : CollectionRequest → Prop
  | .update cardinality filter change _ => ∀ f u, Filter.parse filter = .ok f → Update.parse change = .ok u →
      (cardinality = .many → u.hasSet = true) → Collection.Settles collection promoted f cardinality u db
  | _ => True

/-- The statements of the call fit where nothing is promoted. -/
def Fits : CollectionRequest → Prop
  | .find filter .. | .findOne filter | .count filter =>
    ∀ f, Filter.parse filter = .ok f → (f.predicate ⟨[]⟩).Fits
  | .update cardinality filter change _ => ∀ f u, Filter.parse filter = .ok f → Update.parse change = .ok u →
      u.Fit (f.predicate ⟨[]⟩) cardinality
  | .replaceOne filter .. => ∀ f, Filter.parse filter = .ok f → (f.predicate ⟨[]⟩).Fits
  | .delete cardinality filter => ∀ f, Filter.parse filter = .ok f → (Statement.delete (f.predicate ⟨[]⟩) cardinality).Fits
  | _ => True

variable {timed : Prop} {name : CollectionName} {resolver' : Resolver} {w w' : Workspace}

theorem Settles.createTable {request : CollectionRequest} {db after : Database}
    (h : request.Settles name.text resolver' db) (made : db.createTable name = .ok after) :
    request.Settles name.text resolver' after := by
  cases request with
  | update cardinality filter change upsert =>
    intro f u read parsed sets
    exact (h f u read parsed sets).createTable made
  | _ => trivial

theorem matches_perform {request : CollectionRequest} (onDocuments : request.onDocuments = true) (fits : request.Fits)
    (apt : timed ∨ request.Timeless) (pair : Workspace.Pair timed (Twins name timed ⟨[]⟩ resolver') w w')
    (still : timed → ∃ time, w.clock = .still time) (settles : request.Settles name.text resolver' w.current) :
    Matches timed True (Twins name timed ⟨[]⟩ resolver') (fun r r' => r.untimed = r'.untimed)
      (request.perform ⟨name, ⟨[]⟩⟩) (request.perform ⟨name, resolver'⟩) w w' := by
  have both {f : Filter} (fits : (f.predicate ⟨[]⟩).Fits) : (f.predicate ⟨[]⟩).Fits
      ∧ (f.predicate resolver').Fits :=
    ⟨fits, fits.within (f.within_predicate resolver')⟩
  cases request with
  | insertOne document => exact (Collection.twin_insertOne document _ _ pair).map fun _ _ => congrArg _
  | insertMany documents => exact (Collection.twin_insertMany documents _ _ pair).map fun _ _ => congrArg _
  | find filter listing wanted =>
    refine .ofRequest_bind pair fun l read => ?_
    have found := Collection.twin_find True (apt.imp_right And.left) (fun f read => both (fits f read))
      (apt.imp_right fun timeless => timeless.2 l read) w w' pair
    exact found.bind pair fun ds ds' same => .pure (congrArg (CollectionReply.documents · wanted) same)
  | findOne filter => exact (Collection.twin_findOne apt (fun f read => both (fits f read)) _ _ pair).map fun _ _ => congrArg CollectionReply.document
  | count filter => exact (Collection.twin_count apt (fun f read => both (fits f read)) _ _ pair).map fun _ _ => congrArg _
  | update cardinality filter change upsert =>
    cases cardinality with
    | one =>
      exact (Collection.matches_updateOne apt pair still fits (fun f u read parsed => settles f u read parsed nofun) upsert).map
        fun _ _ => congrArg _
    | many =>
      exact (Collection.matches_updateMany apt pair still fits (fun f u read parsed sets => settles f u read parsed fun _ => sets)
        upsert).map fun _ _ => congrArg _
  | replaceOne filter replacement upsert =>
    exact (Collection.matches_replaceOne apt pair still fits upsert).map fun _ _ => congrArg _
  | delete cardinality filter =>
    exact (Collection.twin_delete apt cardinality (fun f read =>
      ⟨fits f read, (fits f read).delete_within (f.within_predicate resolver')⟩) _ _ pair).map fun _ _ => congrArg _
  | _ => cases onDocuments

end CollectionRequest

end Dossier
