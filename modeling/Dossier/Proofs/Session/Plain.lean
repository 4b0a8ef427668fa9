import Dossier.Collection.Documents
import Dossier.Proofs.Session.Invariant

/-!
# Operations on documents

An action is plain when it reaches the database by statements about documents alone, at its own level or in levels that it
opens and closes (`Action.Plain`). Finding, counting, inserting, updating, replacing and deleting are plain, so whatever
the statements keep, they keep (`Action.Plain.invariant`).
-/

namespace Dossier

namespace Action

/-- An action that is made of statements about documents and of levels of its own. -/
inductive Plain : {α : Type} → Action α → Prop
  | pure {α : Type} (x : α) : Plain (Pure.pure x : Action α)
  | throw {α : Type} (e : StoreError) : Plain (MonadExcept.throw e : Action α)
  | bind {α β : Type} {a : Action α} {f : α → Action β} (first : Plain a) (next : ∀ x, Plain (f x)) : Plain (a >>= f)
  | nextId : Plain Action.nextId
  | now : Plain Action.now
  | execute (name : CollectionName) (r : Resolver) {answer : Answer} (s : Statement answer) :
    Plain (Action.execute name r s)
  | transaction {α : Type} {a : Action α} (h : Plain a) : Plain (Action.transaction a)

namespace Plain

variable {α β : Type} {a : Action α}

theorem map (g : α → β) (h : Plain a) : Plain (g <$> a) := by
  rw [map_eq_pure_bind]
  exact h.bind fun _ => .pure _

theorem ofRequest (r : Except CompileError α) : Plain (Action.ofRequest r) := by
  cases r with
  | ok x => exact .pure x
  | error e => exact .throw _

theorem ofChange (r : Except ApplyError α) : Plain (Action.ofChange r) := by
  cases r with
  | ok x => exact .pure x
  | error e => exact .throw _

theorem ofStore (r : Except StoreError α) : Plain (Action.ofStore r) := by
  cases r with
  | ok x => exact .pure x
  | error e => exact .throw _

theorem mapM {g : α → Action β} (each : ∀ x, Plain (g x)) (l : List α) : Plain (l.mapM g) := by
  induction l with
  | nil => exact pure _
  | cons x rest ih =>
    rw [List.mapM_cons]
    exact (each x).bind fun _ => ih.bind fun _ => pure _

theorem forM {g : α → Action Unit} (each : ∀ x, Plain (g x)) (l : List α) : Plain (l.forM g) := by
  induction l with
  | nil => exact pure _
  | cons x rest ih => exact (each x).bind fun _ => ih

theorem foldlM {g : β → α → Action β} (each : ∀ y x, Plain (g y x)) (l : List α) (start : β) :
    Plain (l.foldlM g start) := by
  induction l generalizing start with
  | nil => exact pure _
  | cons x rest ih =>
    rw [List.foldlM_cons]
    exact (each start x).bind fun next => ih next

end Plain

end Action

/-- A plain action keeps what the statements keep. -/
theorem Action.Plain.invariant {inside : Prop} {P : Database → Prop} (stable : Database.Stable P) {α : Type} {a : Action α}
    (h : Plain a) : Invariant inside P a := by
  induction h generalizing inside with
  | pure x => exact .pure x
  | throw e => exact .throw e
  | bind _ _ first next => exact first.bind fun x => next x
  | nextId => exact .nextId
  | now => exact .now
  | execute name r s => exact .execute stable name r s
  | transaction _ ih => exact .transaction ih

/-! ## Collections -/

namespace Collection

open Dossier.Action

variable (c : Collection)

theorem plain_find (filter : Json) (listing : Listing) : Plain (c.find filter listing) :=
  (Plain.ofRequest _).bind fun _ => (Plain.execute _ _ _).bind fun _ => .ofStore _

theorem plain_findRaw (p : RawPredicate) (listing : Listing) : Plain (c.findRaw p listing) :=
  (Plain.execute _ _ _).bind fun _ => .ofStore _

theorem plain_findOne (filter : Json) : Plain (c.findOne filter) := (c.plain_find filter _).bind fun _ => .pure _

theorem plain_count (filter : Json) : Plain (c.count filter) := (Plain.ofRequest _).bind fun _ => .execute _ _ _

theorem plain_delete (filter : Json) (cardinality : Cardinality) : Plain (c.delete filter cardinality) :=
  (Plain.ofRequest _).bind fun _ => .execute _ _ _

/-! ## Inserting -/

theorem plain_prepare (document : Json) : Plain (prepare document) := by
  refine (Plain.ofStore _).bind fun split => ?_
  obtain ⟨supplied, body⟩ := split
  cases supplied with
  | some value => exact (Plain.ofStore _).bind fun _ => .pure _
  | none => exact Plain.nextId.bind fun _ => .pure _

theorem plain_insert (d : NewDocument) : Plain (c.insert d) :=
  Plain.now.bind fun _ => (Plain.execute _ _ _).bind fun _ => .pure _

theorem plain_insertOne (document : Json) : Plain (c.insertOne document) :=
  (plain_prepare document).bind fun d => (c.plain_insert d).bind fun _ => .pure _

theorem plain_insertAll (ready : List NewDocument) : Plain (do
    ready.forM c.insert
    return ready.map NewDocument.id) :=
  (Plain.forM c.plain_insert ready).bind fun _ => .pure _

theorem plain_insertMany (documents : List Json) : Plain (c.insertMany documents) :=
  (Plain.mapM plain_prepare documents).bind fun ready => .transaction (c.plain_insertAll ready)

/-! ## Updating -/

theorem plain_updateInPlace (f : Filter) (changes : Changes) (cardinality : Cardinality) :
    Plain (c.updateInPlace f changes cardinality) := by
  have rest : Plain (do
      let matched ← c.execute (.countTargets (c.predicate f) cardinality)
      let modified ← c.execute (.change changes (c.predicate f) cardinality (← now))
      return (matched.toNat, modified)) :=
    (Plain.execute _ _ _).bind fun _ => Plain.now.bind fun _ => (Plain.execute _ _ _).bind fun _ => .pure _
  unfold updateInPlace
  simp only
  split
  · refine (Plain.execute _ _ _).bind fun code => ?_
    split
    · split
      · exact (Plain.throw _).bind fun _ => rest
      · exact rest
    · exact rest
  · exact rest

theorem plain_overwriteOne (u : Update) (time : Int) (count : Nat) (d : String × Fields) :
    Plain (c.overwriteOne u time count d) := by
  refine (Plain.ofChange _).bind fun body => ?_
  split
  · exact .pure _
  · exact (Plain.execute _ _ _).bind fun _ => .pure _

theorem plain_overwriteMatching (f : Filter) (u : Update) (cardinality : Cardinality) :
    Plain (c.overwriteMatching f u cardinality) :=
  (Plain.execute _ _ _).bind fun _ => (Plain.ofStore _).bind fun bodies => Plain.now.bind fun time =>
    (Plain.foldlM (c.plain_overwriteOne u time) bodies 0).bind fun _ => .pure _

theorem plain_upsert (f : Filter) (u : Update) : Plain (c.upsert f u) := by
  refine (Plain.ofStore _).bind fun made => ?_
  obtain ⟨supplied, body⟩ := made
  cases supplied with
  | some id => exact (Plain.pure _).bind fun _ => (c.plain_insert _).bind fun _ => .pure _
  | none => exact Plain.nextId.bind fun _ => (c.plain_insert _).bind fun _ => .pure _

/-- The steps of an update, with the insertion of what it misses. -/
theorem plain_updateSteps (f : Filter) (u : Update) (cardinality : Cardinality) (insertMissing : Bool) :
    Plain (do
      let (matched, modified) ← match u.inPlace? c.resolver with
        | some changes => c.updateInPlace f changes cardinality
        | none => c.overwriteMatching f u cardinality
      let upserted ← if matched = 0 && insertMissing then some <$> c.upsert f u else Pure.pure none
      return (⟨matched, modified, upserted⟩ : UpdateResult)) := by
  have rest : ∀ counts : Nat × Nat, Plain (do
      let (matched, modified) := counts
      let upserted ← if matched = 0 && insertMissing then some <$> c.upsert f u else Pure.pure none
      return (⟨matched, modified, upserted⟩ : UpdateResult)) := by
    rintro ⟨matched, modified⟩
    simp only
    split
    · exact ((c.plain_upsert f u).map _).bind fun _ => .pure _
    · exact (Plain.pure _).bind fun _ => .pure _
  simp only
  split
  · exact (c.plain_updateInPlace f _ cardinality).bind rest
  · exact (c.plain_overwriteMatching f u cardinality).bind rest

theorem plain_runUpdate (f : Filter) (u : Update) (cardinality : Cardinality) (insertMissing : Bool) :
    Plain (c.runUpdate f u cardinality insertMissing) :=
  .transaction (c.plain_updateSteps f u cardinality insertMissing)

theorem plain_updateOne (filter change : Json) (insertMissing : Bool) : Plain (c.updateOne filter change insertMissing) :=
  (Plain.ofRequest _).bind fun _ => (Plain.ofRequest _).bind fun _ => c.plain_runUpdate _ _ _ _

theorem plain_updateMany (filter change : Json) (insertMissing : Bool) :
    Plain (c.updateMany filter change insertMissing) := by
  refine (Plain.ofRequest _).bind fun _ => (Plain.ofRequest _).bind fun u => ?_
  split
  · exact (Plain.throw _).bind fun _ => c.plain_runUpdate _ _ _ _
  · exact c.plain_runUpdate _ _ _ _

theorem plain_replaceOne (filter replacement : Json) (insertMissing : Bool) :
    Plain (c.replaceOne filter replacement insertMissing) := by
  refine (Plain.ofRequest _).bind fun _ => (Plain.ofRequest _).bind fun u => ?_
  cases u with
  | replace body => exact c.plain_runUpdate _ _ _ _
  | change changes => exact .throw _

end Collection

end Dossier
