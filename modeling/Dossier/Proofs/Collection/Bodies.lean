import Dossier.Proofs.Collection.Calls
import Dossier.Proofs.Database.Bodies
import Dossier.Proofs.Session.Invariant
import Dossier.Proofs.Store.Mirror

/-!
# What requests keep of the stored bodies

A request writes bodies in four ways: it inserts a document, edits bodies in place, overwrites bodies with what an
update makes of them, or inserts the document that the filter of an update describes. `kept_bodies`: where a
property holds of all that is written in these ways, it holds of every stored body.
-/

namespace Dossier

open Dossier.Action Database

variable {B : Body → Prop}

/-- The property holds of the body that stores the entries. -/
def Fields.Encodes (B : Body → Prop) (fields : Fields) : Prop := ∀ b : Body, b.text = (Json.object fields).text → B b

/-- The property holds of the bodies that an update makes of bodies of which it holds. -/
structure Update.Keeps (B : Body → Prop) (u : Update) : Prop where
  edits : ∀ c, u = .change c → ∀ b b' : Body, B b → b'.text = (c.edit b.tree).text → B b'
  rewrites : ∀ (b : Body) fields after, B b → b.decode = .ok fields → u.apply fields = .ok after → Fields.Encodes B after

/-- The property holds of the body that an upsert inserts. -/
def Update.Inserts (B : Body → Prop) (u : Update) (f : Filter) : Prop :=
  ∀ id body, u.synthesize f = .ok (id, body) → Fields.Encodes B body

/-- The property holds of the body of a document that is inserted. -/
def NewDocument.Brings (B : Body → Prop) (document : Json) : Prop :=
  ∀ id body, split document = .ok (id, body) → Fields.Encodes B body

/-- The property holds of what an update writes, and of what it inserts when it inserts. -/
def Update.Writes (B : Body → Prop) (filter : Json) (insertMissing : Bool) (u : Update) : Prop :=
  u.Keeps B ∧ (insertMissing = true → ∀ f, Filter.parse filter = .ok f → u.Inserts B f)

/-- The property holds of all that a request to a collection writes. -/
def CollectionRequest.Writes (B : Body → Prop) : CollectionRequest → Prop
  | insertOne document => NewDocument.Brings B document
  | insertMany documents => ∀ d ∈ documents, NewDocument.Brings B d
  | update _ filter change upsert => ∀ u, Update.parse change = .ok u → u.Writes B filter upsert
  | replaceOne filter replacement upsert =>
    ∀ body, Update.parse replacement = .ok (.replace body) → (Update.replace body).Writes B filter upsert
  | putBody _ data => ∀ b : Body, b.text = data → B b
  | _ => True

theorem Update.inPlace?_eq_some {r : Resolver} {u : Update} {c : Changes} (placed : u.inPlace? r = some c) :
    u = .change c := by
  cases u with
  | change changes =>
    simp only [inPlace?] at placed
    split at placed
    · cases placed
    · rw [Option.some.inj placed]
  | replace body => cases placed

/-- What is decoded of rows one after another is decoded of one of them. -/
theorem Row.exists_of_mapM_decode {rows : List Row} {ds : List (String × Fields)}
    (made : (rows.mapM fun r => do return (r.id, ← r.data.decode)) = .ok ds) {d : String × Fields} (mem : d ∈ ds) :
    ∃ r ∈ rows, d.1 = r.id ∧ r.data.decode = .ok d.2 := by
  obtain ⟨r, hr, made⟩ := Outcome.exists_of_mapM made mem
  obtain ⟨fields, decoded, eq⟩ := Outcome.bind_eq_ok.1 made
  cases eq
  exact ⟨r, hr, rfl, decoded⟩

namespace Collection

variable {inside : Prop} (c : Collection)

theorem bodies_execute {name : CollectionName} {r : Resolver} {answer : Answer} {s : Statement answer}
    (writes : s.Writes B) : Invariant inside (Bodies B) (Action.execute name r s) := by
  cases answer with
  | changed => exact Invariant.write fun db n after h made => h.run writes made
  | rows | number =>
    rw [Action.execute_eq_read name r s (by decide)]
    exact Invariant.read _

/-! ## Inserting -/

theorem gives_prepare {document : Json} (brings : NewDocument.Brings B document) :
    Gives inside (Bodies B) (prepare document) fun d => d.body.Encodes B := by
  refine (Gives.ofStore fun _ eq => eq).bind fun (supplied, body) made => ?_
  cases supplied with
  | some value => exact (Invariant.ofStore _).gives.bind fun _ _ => .pure (brings _ _ made)
  | none => exact Invariant.nextId.gives.bind fun _ _ => .pure (brings _ _ made)

theorem bodies_insert {d : NewDocument} (encodes : d.body.Encodes B) : Invariant inside (Bodies B) (c.insert d) :=
  Invariant.now.bind fun _ => Invariant.bind (bodies_execute encodes) fun _ => .pure _

theorem bodies_insertOne {document : Json} (brings : NewDocument.Brings B document) :
    Invariant inside (Bodies B) (c.insertOne document) :=
  (gives_prepare brings).andThen fun _ encodes => (c.bodies_insert encodes).bind fun _ => .pure _

theorem bodies_insertMany {documents : List Json} (brings : ∀ d ∈ documents, NewDocument.Brings B d) :
    Invariant inside (Bodies B) (c.insertMany documents) :=
  (Gives.mapM fun d mem => gives_prepare (brings d mem)).andThen fun _ encode =>
    .transaction ((Invariant.forM_mem fun d mem => c.bodies_insert (encode d mem)).bind fun _ => .pure _)

/-! ## Updating -/

theorem bodies_updateInPlace {changes : Changes} (keeps : (Update.change changes).Keeps B) (f : Filter)
    (cardinality : Cardinality) : Invariant inside (Bodies B) (c.updateInPlace f changes cardinality) := by
  have rest : Invariant inside (Bodies B) (do
      let matched ← c.execute (.countTargets (c.predicate f) cardinality)
      let modified ← c.execute (.change changes (c.predicate f) cardinality (← now))
      return (matched.toNat, modified)) :=
    Invariant.bind (bodies_execute trivial) fun _ => Invariant.now.bind fun _ =>
      Invariant.bind (bodies_execute (keeps.edits changes rfl)) fun _ => .pure _
  unfold updateInPlace
  simp only
  split
  · rename_i search guarded
    unfold Statement.guard? at guarded
    split at guarded
    · cases guarded
    · cases guarded
      refine Invariant.bind (bodies_execute trivial) fun code => ?_
      split
      · split
        · exact (Invariant.throw _).bind fun _ => rest
        · exact rest
      · exact rest
  · exact rest

theorem bodies_overwriteOne {u : Update} {d : String × Fields} (encodes : ∀ body, u.apply d.2 = .ok body → body.Encodes B)
    (time : Int) (count : Nat) : Invariant inside (Bodies B) (c.overwriteOne u time count d) := by
  refine (Gives.ofChange encodes).andThen fun body writes => ?_
  split
  · exact .pure _
  · exact Invariant.bind (bodies_execute writes) fun _ => .pure _

/-- The rows that are read hold bodies with the property, so what the update makes of them has it too. -/
theorem bodies_overwriteMatching {u : Update} (keeps : u.Keeps B) (f : Filter) (cardinality : Cardinality) :
    Invariant inside (Bodies B) (c.overwriteMatching f u cardinality) := by
  have read : Gives inside (Bodies B) (c.execute (.fetch (c.predicate f) cardinality)) fun rows => ∀ r ∈ rows, B r.data :=
    Gives.rows fun db rows after h ran => h.fetched ran
  refine read.andThen fun rows all => ?_
  have decoded : Gives inside (Bodies B) (Action.ofStore (rows.mapM fun r => do return (r.id, ← r.data.decode)))
      fun ds => ∀ d ∈ ds, ∀ body, u.apply d.2 = .ok body → body.Encodes B := by
    refine Gives.ofStore fun ds made d mem body applied => ?_
    obtain ⟨r, hr, -, decode⟩ := Row.exists_of_mapM_decode made mem
    exact keeps.rewrites r.data d.2 body (all r hr) decode applied
  refine decoded.andThen fun ds known => Invariant.now.bind fun time => ?_
  exact (Invariant.foldlM_mem (fun d mem count => c.bodies_overwriteOne (known d mem) time count) 0).bind fun _ => .pure _

theorem bodies_upsert {f : Filter} {u : Update} (inserts : u.Inserts B f) : Invariant inside (Bodies B) (c.upsert f u) := by
  refine (Gives.ofStore fun _ eq => eq).andThen fun (supplied, body) made => ?_
  have encodes := inserts _ _ made
  cases supplied with
  | some id => exact (Invariant.pure _).bind fun _ => (c.bodies_insert encodes).bind fun _ => .pure _
  | none => exact Invariant.nextId.bind fun _ => (c.bodies_insert encodes).bind fun _ => .pure _

theorem bodies_runUpdate {f : Filter} {u : Update} {insertMissing : Bool} (keeps : u.Keeps B)
    (inserts : insertMissing = true → u.Inserts B f) (cardinality : Cardinality) :
    Invariant inside (Bodies B) (c.runUpdate f u cardinality insertMissing) := by
  rw [runUpdate_eq]
  refine .transaction (Invariant.bind ?_ fun counts => ?_)
  · unfold strategy
    split
    · rename_i changes placed
      obtain rfl := Update.inPlace?_eq_some placed
      exact c.bodies_updateInPlace keeps f cardinality
    · exact c.bodies_overwriteMatching keeps f cardinality
  · unfold Collection.insertMissing
    split
    · rename_i wanted
      refine ((c.bodies_upsert (inserts ?_)).map _).bind fun _ => .pure _
      simp only [Bool.and_eq_true] at wanted
      exact wanted.2
    · exact (Invariant.pure _).bind fun _ => .pure _

theorem bodies_updateOne {filter change : Json} {insertMissing : Bool}
    (writes : ∀ u, Update.parse change = .ok u → u.Writes B filter insertMissing) :
    Invariant inside (Bodies B) (c.updateOne filter change insertMissing) :=
  (Gives.ofRequest fun _ eq => eq).andThen fun f read => (Gives.ofRequest fun _ eq => eq).andThen fun u parsed =>
    c.bodies_runUpdate (writes u parsed).1 (fun wanted => (writes u parsed).2 wanted f read) _

theorem bodies_updateMany {filter change : Json} {insertMissing : Bool}
    (writes : ∀ u, Update.parse change = .ok u → u.Writes B filter insertMissing) :
    Invariant inside (Bodies B) (c.updateMany filter change insertMissing) := by
  refine (Gives.ofRequest fun _ eq => eq).andThen fun f read => (Gives.ofRequest fun _ eq => eq).andThen fun u parsed => ?_
  have rest : Invariant inside (Bodies B) (c.runUpdate f u .many insertMissing) :=
    c.bodies_runUpdate (writes u parsed).1 (fun wanted => (writes u parsed).2 wanted f read) .many
  split
  · exact (Invariant.throw _).bind fun _ => rest
  · exact rest

theorem bodies_replaceOne {filter replacement : Json} {insertMissing : Bool}
    (writes : ∀ body, Update.parse replacement = .ok (.replace body) → (Update.replace body).Writes B filter insertMissing) :
    Invariant inside (Bodies B) (c.replaceOne filter replacement insertMissing) := by
  refine (Gives.ofRequest fun _ eq => eq).andThen fun f read => (Gives.ofRequest fun _ eq => eq).andThen fun u parsed => ?_
  cases u with
  | replace body => exact c.bodies_runUpdate (writes body parsed).1 (fun wanted => (writes body parsed).2 wanted f read) _
  | change changes => exact .throw _

/-! ## Requests -/

/-- A text that is put as a body is checked before it is stored. -/
theorem text_of_admitBody {db : Database} {t : Table} {r : Row} {data : String} {b : Body}
    (admitted : db.admitBody t r data = .ok b) : b.text = data := by
  have valid : validBody data = .ok b := by
    unfold Database.admitBody at admitted
    simp only at admitted
    split at admitted
    · obtain ⟨_, -, admitted⟩ := Outcome.bind_eq_ok.1 admitted
      obtain ⟨_, -, admitted⟩ := Outcome.bind_eq_ok.1 admitted
      exact admitted
    · exact admitted
  exact Body.ofText?_eq_some (validBody_eq_ok valid)

/-- What holds of all that the request writes holds of all stored bodies after it. -/
theorem bodies_perform (r : CollectionRequest) (writes : r.Writes B) :
    Invariant False (Bodies B) (r.perform c) := by
  have promotes : ∀ db path unique time after, Bodies B db → db.Admits c.name path →
      db.promote c.name path unique time = .ok after → after.Bodies B := fun _ _ _ _ _ h _ made => h.promote made
  cases r with
  | insertOne document => exact (c.bodies_insertOne writes).map _
  | insertMany documents => exact (c.bodies_insertMany writes).map _
  | find filter listing wanted =>
    exact (Invariant.ofRequest _).bind fun _ => (c.quiet_find filter _).invariant.bind fun _ => .pure _
  | findOne filter => exact (c.quiet_findOne filter).invariant.map _
  | findRaw predicate listing wanted =>
    exact (Invariant.ofRequest _).bind fun _ => (c.quiet_findRaw predicate _).invariant.bind fun _ => .pure _
  | count filter => exact (c.quiet_count filter).invariant.map _
  | update cardinality filter change upsert =>
    cases cardinality with
    | one => exact (c.bodies_updateOne writes).map _
    | many => exact (c.bodies_updateMany writes).map _
  | replaceOne filter replacement upsert => exact (c.bodies_replaceOne writes).map _
  | delete cardinality filter =>
    have deletes : Invariant False (Bodies B) (c.delete filter cardinality) :=
      (Invariant.ofRequest _).bind fun _ => bodies_execute trivial
    exact deletes.map _
  | promote path unique => exact (c.invariant_promote path unique fun db path time after => promotes db path unique time after).map _
  | promoteCompound paths unique =>
    exact (c.invariant_promoteCompound paths unique (fun db path time after => promotes db path unique time after)
      fun _ _ _ h made => h.createIndex made).map _
  | addCheck path expression =>
    exact (c.invariant_addCheck (fun _ _ _ _ _ _ h _ replaced => h.replaceTriggers replaced)
      (fun _ entry h => h.recordCheck entry) path expression).map _
  | name => exact .pure _
  | promotions | checks | schema | columnValues => exact (Invariant.read _).map _
  | freeze =>
    refine Invariant.bind (Invariant.alter fun db after h made => ?_) fun _ => .pure _
    obtain ⟨t, -, made⟩ := Outcome.bind_eq_ok.1 made
    split at made
    · cases made
    · cases made
      exact h.congr rfl
  | putBody id data =>
    refine (Invariant.write fun db n after h made => ?_).map _
    refine h.updateRows (fun t cs _ changed => ?_) made
    refine Bodies.written (f := fun r => do return { r with data := ← db.admitBody t r data }) (fun r s put => ?_)
      (by simpa using changed)
    obtain ⟨b, admitted, eq⟩ := Outcome.bind_eq_ok.1 put
    cases eq
    exact writes b (text_of_admitBody admitted)

end Collection

/-- What holds of all that is written holds of all stored bodies. -/
theorem kept_bodies : Kept (Bodies B) (CollectionRequest.Writes B) where
  empty := bodies_empty
  version _ _ h := h.congr rfl
  opening := Collection.invariant_openNamed fun _ _ _ h made => h.createTable made
  perform c request writes := c.bodies_perform request writes

end Dossier
