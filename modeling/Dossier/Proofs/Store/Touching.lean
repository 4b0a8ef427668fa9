import Dossier.Proofs.Collection.Touching
import Dossier.Proofs.Store.Selecting

/-!
# What updates do on reachable stores

`Host.updated_of_reached`: in every store that calls lead to, an update that succeeds touches the documents that its filter
selects, or the first of them, and no others. It counts the changed ones by their texts as long as documents that are
written anew read back; `Host.miscounted` is an update that counts one though no text has changed.
-/

namespace Dossier

open Dossier.Action Text

/-- The filter and the change of a call that updates, and how many documents it is about. -/
def CollectionRequest.updates? : CollectionRequest → Option (Json × Json × Cardinality)
  | .update cardinality filter change _ => some (filter, change, cardinality)
  | .replaceOne filter replacement _ => some (filter, replacement, .one)
  | _ => none

/-- What an update has been answered with. -/
def CollectionReply.result? : CollectionReply → Option UpdateResult
  | .updated result => some result
  | _ => none

theorem CollectionReply.result?_eq_some {reply : CollectionReply} {result : UpdateResult} (h : reply.result? = some result) :
    reply = .updated result := by
  cases reply <;> cases h
  rfl

/-- Of a list what a statement is about. -/
def Cardinality.limit {α : Type} : Cardinality → List α → List α
  | .one, l => l.take 1
  | .many, l => l

theorem Table.targets_eq (t : Table) (p : Predicate) (cardinality : Cardinality) :
    t.targets p cardinality = cardinality.limit (t.select p) := by
  cases cardinality <;> rfl

namespace Collection

variable {c : Collection} {w v : Workspace} {filter change : Json} {f : Filter} {u : Update} {cardinality : Cardinality}
  {result : UpdateResult}

/-- A call that updates and succeeds has run the update that it asks for. -/
theorem exists_runUpdate {request : CollectionRequest} (updates : request.updates? = some (filter, change, cardinality))
    (parsed : Filter.parse filter = .ok f) (accepted : Update.parse change = .ok u)
    (made : (request.perform c).result w = (.ok (.updated result), v)) :
    ∃ wanted, (c.runUpdate f u cardinality wanted).result w = (.ok result, v) := by
  have answered : ∀ a : Action UpdateResult, (CollectionReply.updated <$> a).result w = (.ok (.updated result), v) →
      a.result w = (.ok result, v) := by
    intro a made
    rw [result_map] at made
    cases ran : a.result w with
    | mk r w' =>
      rw [ran] at made
      cases r <;> cases made
      rfl
  cases request with
  | update _ _ _ wanted =>
    cases updates
    refine ⟨wanted, ?_⟩
    cases cardinality with
    | one => exact (result_readUpdate parsed accepted _).symm.trans (answered _ made)
    | many =>
      have ran := (result_readUpdate parsed accepted _).symm.trans (answered _ made)
      simp only at ran
      split at ran
      · cases ran
      · exact ran
  | replaceOne _ _ wanted =>
    cases updates
    refine ⟨wanted, ?_⟩
    have ran := (result_readUpdate parsed accepted _).symm.trans (answered _ made)
    split at ran
    · exact ran
    · cases ran
  | _ => cases updates

end Collection

/-- In a store that starts without a database, wherever calls lead to and a collection's rows decode as documents: an update
that succeeds is about the documents that finding and counting with its filter answer, or the first of them, which is the
one that finding one answers. Of these it counts all and those whose text changes, each of them keeps its place, its number,
its identifier and the time it was made at, and if its text stays the time of its last change; nothing else in the collection
or in another one changes, but for one document that may be inserted. Of a document that is written anew this takes that it
reads back from its text. -/
theorem Host.updated_of_reached {disk : Disk} {settings : Settings} {ids : IdSource} {clock : Clock}
    {requests : List StoreRequest} (fresh : ∀ e ∈ disk.entries, ∀ f, e.2 ≠ .database f)
    (calls : ∀ r ∈ requests, r.Within fun _ => True) {h : Host}
    (reached : ((start disk settings ids clock).callAll requests).2 = h) {s : Store} (opened : h.store = some s)
    {name : String} {x : Session} (session : s.session? name = some x) {c : Collection} {t : Table} {all : List Document}
    (shows : (s.workspace x).Shows c.name t all) {request : CollectionRequest} {filter change : Json}
    {cardinality : Cardinality} (updates : request.updates? = some (filter, change, cardinality)) {f : Filter} {u : Update}
    (parsed : Filter.parse filter = .ok f) (accepted : Update.parse change = .ok u)
    (reads : u.inPlace? c.resolver = none → ∀ r ∈ t.targets (c.predicate f) cardinality, u.ReadsBack r.data)
    {result : UpdateResult} {v : Workspace}
    (made : (request.perform c).result (s.workspace x) = (.ok (.updated result), v)) :
    ∃ docs targets t', c.Selects (s.workspace x) filter docs
      ∧ targets.Sublist t.rows ∧ targets.mapM Row.document = .ok (cardinality.limit docs)
      ∧ result.matched = (cardinality.limit docs).length
      ∧ v.current.table? c.name.text = some t' ∧ t.Updated targets result t'
      ∧ ∀ other, sameName c.name.text other = false → v.current.table? other = (s.workspace x).current.table? other := by
  have good : h.Good Database.Numbered := good_of_reached Database.kept_numbered fresh calls reached
  have here := good.workspace opened session
  obtain ⟨wanted, ran⟩ := Collection.exists_runUpdate updates parsed accepted made
  obtain ⟨docs, decodes, -, selects⟩ :=
    Collection.exists_selects here.orderly shows parsed (Collection.takes_of_runUpdate here.orderly ran).2
  obtain ⟨t', found, updated, others⟩ := Collection.updated_of_runUpdate here.orderly here.current shows.found reads ran
  have shown : (t.targets (c.predicate f) cardinality).mapM Row.document = .ok (cardinality.limit docs) := by
    rw [Table.targets_eq]
    cases cardinality with
    | one => exact Outcome.mapM_take 1 decodes
    | many => exact decodes
  exact ⟨docs, _, t', selects, Database.targets_sublist t _ _, shown,
    updated.matched.trans (Collection.length_of_decodes shown).symm, found, updated, others⟩

/-- The path `kind`. -/
def FieldPath.kind : FieldPath := ⟨["kind"], by decide, by decide⟩

/-- Calls that insert three documents and promote a path that an update changes. -/
def StoreRequest.columnedKinds : List StoreRequest :=
  threeKinds ++ [.session "main" (.within "kinds" (.promote "kind" false))]

/-- The host after these calls. -/
def Host.columnedKinds : Host := (blank.callAll StoreRequest.columnedKinds).2

/-- The collection with the promoted path. -/
def Collection.columnedKinds : Collection := ⟨kinds.name, ⟨[.kind]⟩⟩

/-- A change of the kind to a kind. -/
def Json.setKind (kind : String) : Json := .object [("$set", .object [("kind", .string kind)])]

/-- The call that makes the new kind the old one. -/
def CollectionRequest.ageKinds : CollectionRequest := .update .many .newKind (.setKind "old") false

theorem Host.updated_of_reached_kinds : ∃ s x docs targets t t' result v, columnedKinds.store = some s
    ∧ s.session? "main" = some x
    ∧ (CollectionRequest.ageKinds.perform Collection.columnedKinds).result (s.workspace x) = (.ok (.updated result), v)
    ∧ result = ⟨2, 2, none⟩ ∧ Collection.columnedKinds.Selects (s.workspace x) .newKind docs ∧ docs.length = 2
    ∧ (s.workspace x).current.table? "kinds" = some t ∧ v.current.table? "kinds" = some t'
    ∧ t.Updated targets result t' := by
  have evaluated : (columnedKinds.store.bind fun s => (s.session? "main").bind fun x =>
      ((s.workspace x).current.table? "kinds").map fun t => ((t.rows.mapM Row.document).toOption.map List.length,
        ((CollectionRequest.ageKinds.perform Collection.columnedKinds).result (s.workspace x)).1.toOption.bind
          CollectionReply.result?,
        (Filter.parse .newKind).toOption.all fun f => (Update.parse (.setKind "old")).toOption.all fun u =>
          (t.targets (Collection.columnedKinds.predicate f) .many).all fun r => u.rereads r.data))
      = some (some 3, some ⟨2, 2, none⟩, true) := by decide +kernel
  obtain ⟨s, x, opened, session, found⟩ := Host.exists_session_of_bind evaluated
  obtain ⟨t, table, eq⟩ := Option.map_eq_some_iff.1 found
  obtain ⟨read, rest⟩ := Prod.mk.inj eq
  obtain ⟨answered, back⟩ := Prod.mk.inj rest
  cases decodes : t.rows.mapM Row.document with
  | error e =>
    rw [decodes] at read
    cases read
  | ok all =>
  cases parsed : Filter.parse .newKind with
  | error e => cases parsed
  | ok f =>
  cases accepted : Update.parse (.setKind "old") with
  | error e => cases accepted
  | ok u =>
  rw [parsed, accepted] at back
  cases made : (CollectionRequest.ageKinds.perform Collection.columnedKinds).result (s.workspace x) with
  | mk r v =>
  rw [made] at answered
  cases r with
  | error e => cases answered
  | ok reply =>
  obtain rfl := CollectionReply.result?_eq_some answered
  have calls : ∀ r ∈ StoreRequest.columnedKinds, r.Within fun _ => True := by
    simp [StoreRequest.columnedKinds, StoreRequest.threeKinds, StoreRequest.insertKind, StoreRequest.Within, Request.Within]
  have reads : ∀ r ∈ t.targets (Collection.columnedKinds.predicate f) .many, u.ReadsBack r.data := fun r mem =>
    Update.readsBack_iff.1 (List.all_eq_true.1 back r mem)
  have shows : (s.workspace x).Shows Collection.columnedKinds.name t all := ⟨table, decodes⟩
  obtain ⟨docs, targets, t', selects, -, -, matched, table', updated, -⟩ :=
    updated_of_reached (Disk.start_fresh []) calls (h := columnedKinds) (by rw [columnedKinds, blank]) opened session shows
      (show CollectionRequest.ageKinds.updates? = some (.newKind, .setKind "old", .many) from rfl) parsed accepted
      (fun _ => reads) made
  exact ⟨s, x, docs, targets, t, t', _, v, opened, session, made, rfl, selects, matched.symm, table, table', updated⟩

/-! ## Doubles that read as others -/

/-- A call of the collection `kinds`. -/
def StoreRequest.ofKinds (request : CollectionRequest) : StoreRequest := .session "main" (.within "kinds" request)

/-- The filter for the document `x`. -/
def Json.onlyX : Json := .object [("_id", .string "x")]

/-- An increment of the promoted path `kind` of the document by a double. -/
def CollectionRequest.addKind (x : Float) : CollectionRequest :=
  .update .one .onlyX (.object [("$inc", .object [("kind", .number (.real x))])]) false

/-- Calls that leave a double whose text reads as another one. -/
def StoreRequest.misread : List StoreRequest :=
  [.reopen none, .ofKinds (.insertOne (.object [("_id", .string "x"), ("kind", .number (.real 9e16))])),
    .ofKinds (.promote "kind" false), .ofKinds (.addKind 80104876678928.0)]

/-- The host after these calls. -/
def Host.misread : Host := (blank.callAll StoreRequest.misread).2

/-- An update that succeeds counts a changed document, though the text of the only document stays the same: what the sum
is written as had been read as another double. -/
theorem Host.miscounted : ∃ s x t t' v, misread.store = some s ∧ s.session? "main" = some x
    ∧ (s.workspace x).current.table? "kinds" = some t ∧ (∃ all, t.rows.mapM Row.document = .ok all)
    ∧ ((CollectionRequest.addKind 16.0).perform Collection.columnedKinds).result (s.workspace x)
      = (.ok (.updated ⟨1, 1, none⟩), v)
    ∧ v.current.table? "kinds" = some t' ∧ t'.rows.map (fun r => r.data.text) = t.rows.map fun r => r.data.text := by
  have evaluated : (misread.store.bind fun s => (s.session? "main").bind fun x =>
      ((s.workspace x).current.table? "kinds").bind fun t =>
        let ran := ((CollectionRequest.addKind 16.0).perform Collection.columnedKinds).result (s.workspace x)
        (ran.2.current.table? "kinds").map fun t' => ((t.rows.mapM Row.document).toOption.isSome,
          ran.1.toOption.bind CollectionReply.result?,
          decide (t'.rows.map (fun r => r.data.text) = t.rows.map fun r => r.data.text)))
      = some (true, some ⟨1, 1, none⟩, true) := by decide +kernel
  obtain ⟨s, x, opened, session, found⟩ := Host.exists_session_of_bind evaluated
  obtain ⟨t, table, found⟩ := Option.bind_eq_some_iff.1 found
  obtain ⟨t', table', eq⟩ := Option.map_eq_some_iff.1 found
  obtain ⟨read, rest⟩ := Prod.mk.inj eq
  obtain ⟨answered, same⟩ := Prod.mk.inj rest
  cases made : ((CollectionRequest.addKind 16.0).perform Collection.columnedKinds).result (s.workspace x) with
  | mk r v =>
  rw [made] at answered table'
  cases r with
  | error e => cases answered
  | ok reply =>
  obtain rfl := CollectionReply.result?_eq_some answered
  cases decodes : t.rows.mapM Row.document with
  | error e =>
    rw [decodes] at read
    cases read
  | ok all => exact ⟨s, x, t, t', v, opened, session, table, ⟨all, decodes⟩, made, table', of_decide_eq_true same⟩

end Dossier
