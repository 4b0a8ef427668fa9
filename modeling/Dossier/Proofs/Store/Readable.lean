import Dossier.Proofs.Collection.Selecting
import Dossier.Proofs.Database.Mirror
import Dossier.Proofs.Store.Reserved
import Dossier.Proofs.Update.Upheld

/-!
# Reading back what was written

`Body.Shallow`: the body is an object as the store writes it that nests no deeper than what decodes, so it decodes if its doubles
read back (`Body.Shallow.exists_decode`). A path makes an object for each of its segments but the last, so an update that writes
at a path writes as deep as the path is long: `Update.Shallow` bounds the two together. The row that an insertion adds, and every
row that an overwrite is about, hold the text of the statement (`Database.Sound.inserted`, `Database.Sound.overwritten`).

`Host.decodes_of_reached`: in a store that calls lead to, every row decodes as long as the texts of its doubles read
back, and a row that holds the text of entries without doubles decodes to these entries. The calls may write nothing
deeper than what decodes, and this they do not check: `Host.written_unreadable` is an update that succeeds and
after which nothing can be found.
-/

namespace Dossier

section

open Text Outcome

/-! ## Shallow bodies -/

/-- The body is an object as the store writes it, and it nests no deeper than what decodes. -/
structure Body.Shallow (b : Body) : Prop where
  written : b.tree.IsWritten
  object : ∃ members, b.tree = .object members
  depth : b.tree.depth ≤ Tree.decodeDepth

/-- The entries nest no deeper than what decodes. -/
def Fields.Shallow (fields : Fields) : Prop := (Json.object fields).tree.depth ≤ Tree.decodeDepth

instance (fields : Fields) : Decidable fields.Shallow := inferInstanceAs (Decidable (_ ≤ _))

namespace Body.Shallow

variable {b : Body}

/-- A shallow body decodes if its doubles read back. -/
theorem exists_decode (h : b.Shallow) (reads : b.tree.DoublesRead) : ∃ fields, b.decode = .ok fields := by
  obtain ⟨members, tree⟩ := h.object
  obtain ⟨j, read⟩ := h.written.exists_json? reads
  rw [tree, Tree.json?] at read
  obtain ⟨fields, all, rfl⟩ := Option.map_eq_some_iff.1 read
  refine ⟨fields, ?_⟩
  rw [decode, Tree.decode?, if_pos h.depth, tree, Tree.json?, all]
  rfl

end Body.Shallow

/-- The tree nests no deeper than what decodes. -/
def Tree.IsShallow (t : Tree) : Prop := t.depth ≤ decodeDepth

/-- A value and the objects on the way to it nest no deeper than what decodes. -/
def Tree.StaysShallow (segments : List String) (t : Tree) : Prop := segments.length + t.depth ≤ decodeDepth

theorem Tree.upheld_shallow : Upheld IsShallow StaysShallow fun _ => True where
  set _ bound h := depth_set _ bound h
  remove _ h := depth_remove _ h
  asRead h := Nat.le_trans (Nat.le_of_eq (depth_asRead _)) h
  decoded h read := Nat.le_trans (depth_of_json? _ read) h

theorem Body.Upholds.shallow {b : Body} (h : b.Upholds Tree.IsShallow) : b.Shallow := ⟨h.isWritten, h.object, h.tree⟩

/-! ## Updates -/

/-- What the changes write at their paths is no deeper than what decodes. -/
def Changes.Shallow (c : Changes) : Prop :=
  (∀ e ∈ c.set, e.1.segments.length + e.2.tree.depth ≤ Tree.decodeDepth)
    ∧ ∀ e ∈ c.inc, e.1.segments.length ≤ Tree.decodeDepth

/-- What the update writes is no deeper than what decodes. -/
def Update.Shallow : Update → Prop
  | change c => c.Shallow
  | replace body => body.Shallow

instance (c : Changes) : Decidable c.Shallow := inferInstanceAs (Decidable (_ ∧ _))

instance (u : Update) : Decidable u.Shallow :=
  match u with
  | .change c => inferInstanceAs (Decidable c.Shallow)
  | .replace body => inferInstanceAs (Decidable body.Shallow)

theorem Update.Shallow.upholds {u : Update} (h : u.Shallow) : u.Upholds Tree.IsShallow Tree.StaysShallow fun _ => True := by
  cases u with
  | replace body => exact h
  | change c => exact ⟨fun _ _ => trivial, h.1, fun e mem t flat => by rw [Tree.StaysShallow, flat]; exact h.2 e mem⟩

theorem Update.Shallow.keeps {u : Update} (h : u.Shallow) : u.Keeps (Body.Upholds Tree.IsShallow) :=
  Tree.upheld_shallow.keeps h.upholds

/-! ## Insertions -/

/-- The number of segments that a write at the field makes objects for, with the last one. -/
def FieldRef.depth : FieldRef → Nat
  | .system _ => 0
  | .body path => path.segments.length

/-- What the filter pins is no deeper than what decodes. -/
def Filter.Shallow (f : Filter) : Prop := ∀ e ∈ f.equalities, e.1.field.depth + e.2.tree.depth ≤ Tree.decodeDepth

instance (f : Filter) : Decidable f.Shallow := inferInstanceAs (Decidable (∀ e ∈ f.equalities, _))

/-- What a shallow update inserts is shallow if the filter of an operator update pins nothing deeper. -/
theorem Update.Shallow.inserts {u : Update} (h : u.Shallow) {f : Filter} (shallow : ∀ c, u = .change c → f.Shallow) :
    u.Inserts (Body.Upholds Tree.IsShallow) f := by
  refine Tree.upheld_shallow.inserts h.upholds (by decide : Fields.Shallow []) fun c eq e mem path field => ?_
  have bound := shallow c eq e mem
  rw [field, FieldRef.depth] at bound
  exact bound

/-! ## Statements that store a text -/

/-- A row of a rewritten table is an old one that got no new state, or one of the new states. -/
theorem Table.mem_rewrite {written : Row → Row} {cs : List (Row × Row)} {t : Table} {r : Row}
    (mem : r ∈ (t.rewrite written cs).rows) :
    (r ∈ t.rows ∧ ∀ c ∈ cs, c.2.rowid ≠ r.rowid) ∨ ∃ c ∈ cs, r = written c.2 := by
  induction cs generalizing t with
  | nil => exact .inl ⟨mem, by simp⟩
  | cons c rest ih =>
    rcases ih (t := t.editRow c.2.rowid fun _ => written c.2) mem with ⟨old, others⟩ | ⟨d, hd, eq⟩
    · obtain ⟨s, hs, rfl⟩ := List.mem_map.1 old
      split at others
      · rename_i same
        rw [if_pos same]
        exact .inr ⟨c, List.mem_cons_self, rfl⟩
      · rename_i apart
        rw [if_neg apart]
        exact .inl ⟨hs, List.forall_mem_cons.2 ⟨Ne.symm apart, others⟩⟩
    · exact .inr ⟨d, List.mem_cons_of_mem _ hd, eq⟩

namespace Database

theorem copied_id (db : Database) (table : String) (change : RowChange) (row : Row) :
    (db.copied table change row).id = row.id := by
  refine List.foldlRecOn (motive := fun r : Row => r.id = row.id) _ _ rfl fun r same g _ => ?_
  unfold Trigger.copyInto
  split <;> exact same

namespace Sound

variable {db after : Database} {name : CollectionName} {r : Resolver} {id text : String} {now : Int} {n : Nat}

/-- An insertion adds a row that holds its text. -/
theorem inserted (sound : db.Sound) (made : db.run name r (.insert id text now) = .ok (n, after)) :
    ∃ row, after.HasRow name row ∧ row.id = id ∧ row.data.text = text := by
  obtain ⟨last, inserted, made⟩ := bind_eq_ok.1 (answer_of_run made)
  cases made
  obtain ⟨t, b, found, read, -, rfl⟩ := insertRow_eq_ok sound.tidy inserted
  refine ⟨_, ⟨_, found_mapTable (Table.addRow_name _) found, List.mem_append_right _ List.mem_cons_self⟩, ?_, ?_⟩
  · rw [copied_id]
  · rw [copied_data]
    exact Body.ofText?_eq_some read

/-- After an overwrite every row of its identifier holds its text. -/
theorem overwritten (sound : db.Sound) (made : db.run name r (.overwrite id text now) = .ok (n, after)) {row : Row}
    (stored : after.HasRow name row) (same : row.id = id) : row.data.text = text := by
  have states : ∀ r s : Row, r.withBody text now = .ok s → s.rowid = r.rowid ∧ s.id = r.id ∧ s.promoted = r.promoted := by
    intro r s state
    obtain ⟨b, -, rfl⟩ := withBody_eq_ok state
    exact ⟨rfl, rfl, rfl⟩
  obtain ⟨-, t, cs, found, changed, -, rfl⟩ :=
    updateRows_eq_ok sound (fun t cs made => rewrites_of_mapM List.filter_sublist states made) (answer_of_run made)
  obtain ⟨u, found', mem⟩ := stored
  rw [rewritten_eq, found_mapTable (Table.rewrite_name _ cs) found] at found'
  obtain rfl := Option.some.inj found'
  rcases Table.mem_rewrite mem with ⟨old, untouched⟩ | ⟨c, hc, rfl⟩
  · -- a row of the identifier that is in the table has got a new state
    obtain ⟨c, hc, made⟩ := exists_of_mem_mapM changed (List.mem_filter.2 ⟨old, by simpa using same⟩)
    obtain ⟨s, state, eq⟩ := bind_eq_ok.1 made
    cases eq
    exact absurd (states row s state).1 (untouched _ hc)
  · obtain ⟨r, -, made⟩ := exists_of_mapM changed hc
    obtain ⟨s, state, eq⟩ := bind_eq_ok.1 made
    cases eq
    obtain ⟨b, read, rfl⟩ := withBody_eq_ok state
    rw [copied_data]
    exact Body.ofText?_eq_some read

end Sound

end Database

end

open Dossier.Action Database

/-! ## What single writes store -/

namespace Collection

variable {inside : Prop} (c : Collection)

theorem insert_stores (d : NewDocument) : Spec inside Database.Sound (c.insert d) fun r db => r = .ok () →
    ∃ row, db.HasRow c.name row ∧ row.id = d.id ∧ row.data.text = (Json.object d.body).text := by
  refine Spec.bind (Q := fun _ => Database.Sound) (Spec.now fun _ _ sound => sound) (fun time => ?_) fun e _ _ eq => by cases eq
  refine Spec.bind (Q := fun r db => ∀ n, r = .ok n →
    ∃ row, db.HasRow c.name row ∧ row.id = d.id ∧ row.data.text = (Json.object d.body).text)
    (Spec.write (fun _ _ _ sound made _ _ => sound.inserted made) fun _ _ _ _ n eq => by cases eq)
    (fun n => Spec.pure _ fun _ stored _ => stored n rfl) fun e _ _ eq => by cases eq

/-- A document that is overwritten is counted, and its row holds the text of the changed body. -/
theorem overwriteOne_stores {u : Update} {d : String × Fields} {body : Fields} (applied : u.apply d.2 = .ok body)
    (time : Int) (count : Nat) : Spec inside Database.Sound (c.overwriteOne u time count d) fun r db => r = .ok (count + 1) →
    ∀ row, db.HasRow c.name row → row.id = d.1 → row.data.text = (Json.object body).text := by
  refine Spec.bind (Q := fun r db => db.Sound ∧ ∀ x, r = .ok x → x = body) (Spec.ofChange _ fun _ sound =>
    ⟨sound, fun x eq => by rw [applied] at eq; cases eq; rfl⟩) (fun x => ?_) fun e _ _ eq => by cases eq
  split
  · exact Spec.pure _ fun _ _ eq => absurd (Except.ok.inj eq) (by omega)
  · refine Spec.bind (Q := fun r db => ∀ n, r = .ok n →
      ∀ row, db.HasRow c.name row → row.id = d.1 → row.data.text = (Json.object body).text)
      (Spec.write (fun _ _ _ start made n eq row stored same => ?_) fun _ _ _ _ n eq => by cases eq)
      (fun n => Spec.pure _ fun _ stored _ => stored n rfl) fun e _ _ eq => by cases eq
    obtain ⟨sound, known⟩ := start
    rw [known x rfl] at made
    exact sound.overwritten made stored same

end Collection

/-! ## Reachable stores -/

/-- The request writes nothing deeper than what decodes, and it neither freezes the collection nor puts a text in the
place of a body. -/
def CollectionRequest.Shallow : CollectionRequest → Prop
  | insertOne document => document.tree.depth ≤ Tree.decodeDepth
  | insertMany documents => ∀ d ∈ documents, d.tree.depth ≤ Tree.decodeDepth
  | update _ filter change upsert => (∀ u, Update.parse change = .ok u → u.Shallow)
      ∧ (upsert = true → ∀ c f, Update.parse change = .ok (.change c) → Filter.parse filter = .ok f → f.Shallow)
  | replaceOne _ replacement _ => replacement.tree.depth ≤ Tree.decodeDepth
  | freeze | putBody _ _ => False
  | _ => True

theorem CollectionRequest.Shallow.writes {r : CollectionRequest} (shallow : r.Shallow) :
    r.Writes (Body.Upholds Tree.IsShallow) := by
  cases r with
  | insertOne document => exact Tree.upheld_shallow.brings shallow fun _ _ => trivial
  | insertMany documents => exact fun d mem => Tree.upheld_shallow.brings (shallow d mem) fun _ _ => trivial
  | update cardinality filter change upsert =>
    intro u parsed
    refine ⟨(shallow.1 u parsed).keeps, fun wanted f read => (shallow.1 u parsed).inserts fun c eq => ?_⟩
    subst eq
    exact shallow.2 wanted c f parsed read
  | replaceOne filter replacement upsert =>
    intro body parsed
    have bound : (Update.replace body).Shallow := by
      obtain ⟨rfl, -⟩ := Update.parse_replace parsed
      exact shallow
    exact ⟨bound.keeps, fun _ f _ => bound.inserts fun c eq => by cases eq⟩
  | putBody id data => exact shallow.elim
  | _ => trivial

theorem CollectionRequest.Shallow.thaws {r : CollectionRequest} (shallow : r.Shallow) : r ≠ .freeze := by
  rintro rfl
  exact shallow

/-- In a store that starts without a database, when all calls write nothing deeper than what decodes: every row decodes
if its doubles read back; a row that holds the text of entries without doubles decodes to these entries; finding does
not fail for want of decoding; and the rows that an insertion adds and an overwrite changes hold the texts of the bodies
that they were given. -/
theorem Host.decodes_of_reached {disk : Disk} {settings : Settings} {ids : IdSource} {clock : Clock}
    {requests : List StoreRequest} (fresh : ∀ e ∈ disk.entries, ∀ f, e.2 ≠ .database f)
    (calls : ∀ r ∈ requests, r.Within CollectionRequest.Shallow) {h : Host}
    (reached : ((start disk settings ids clock).callAll requests).2 = h) {s : Store} (opened : h.store = some s) :
    (∀ db, s.Holds db → ∀ t ∈ db.tables, ∀ r ∈ t.rows,
        (r.data.tree.DoublesRead → ∃ fields, r.data.decode = .ok fields)
        ∧ ∀ fields, (Json.object fields).isPlain = true → r.data.text = (Json.object fields).text →
          r.data.decode = .ok fields)
      ∧ ∀ name x, s.session? name = some x → ∀ c : Collection,
        (∀ filter listing, (∀ r, (s.workspace x).current.HasRow c.name r → r.data.tree.DoublesRead) →
          StoreError.Decodes ((c.find filter listing).result (s.workspace x)).1)
        ∧ (∀ d w, (c.insert d).result (s.workspace x) = (.ok (), w) →
          ∃ r, w.current.HasRow c.name r ∧ r.id = d.id ∧ r.data.text = (Json.object d.body).text)
        ∧ ∀ u time count d body w, u.apply d.2 = .ok body →
          (c.overwriteOne u time count d).result (s.workspace x) = (.ok (count + 1), w) →
          ∀ r, w.current.HasRow c.name r → r.id = d.1 → r.data.text = (Json.object body).text := by
  have kept : Kept (fun db => db.Bodies (Body.Upholds Tree.IsShallow) ∧ db.Mirroring) CollectionRequest.Shallow :=
    (kept_bodies.mono fun _ shallow => shallow.writes).and (kept_mirroring.mono fun _ shallow => shallow.thaws)
  have good : h.Good fun db => db.Bodies (Body.Upholds Tree.IsShallow) ∧ db.Mirroring :=
    good_of_reached kept fresh calls reached
  have store := good.store s opened
  refine ⟨fun db holds t mem r hr => ?_, fun name x session c => ?_⟩
  · have shallow := ((store.holds holds).1 t mem r hr).shallow
    exact ⟨shallow.exists_decode, fun fields plain text => Body.decode_of_text plain text shallow.depth⟩
  · have before := good.workspace opened session
    have sound : (s.workspace x).current.Sound := before.current.2.installed.sound
    refine ⟨fun filter listing reads => ?_, fun d w made => ?_, fun u time count d body w applied made => ?_⟩
    · refine ((c.find_decodes filter listing fun r stored => ?_) (s.workspace x) before.orderly False.elim rfl).2.2
      obtain ⟨t, found, hr⟩ := stored
      exact (before.current.1.row found r hr).shallow.exists_decode (reads r ⟨t, found, hr⟩)
    · have inserts : Spec False Database.Sound (c.insert d) _ := c.insert_stores d
      have stored := (inserts _ before.orderly False.elim sound).2.2
      rw [made] at stored
      exact stored rfl
    · have overwrites : Spec False Database.Sound (c.overwriteOne u time count d) _ := c.overwriteOne_stores applied time count
      have stored := (overwrites _ before.orderly False.elim sound).2.2
      rw [made] at stored
      exact stored rfl

/-- Calls that insert a document and set a path of it. -/
def StoreRequest.setting (path : String) (value : Json) : List StoreRequest :=
  [.reopen none, .session "main" (.within "notes" (.insertOne (.object [("_id", .string "x"), ("b", .object [("c", .string "v")])]))),
    .session "main" (.within "notes" (.update .one (.object [("_id", .string "x")])
      (.object [("$set", .object [(path, value)])]) false))]

/-- The host after these calls. -/
def Host.edited (path : String) (value : Json) : Host := (blank.callAll (StoreRequest.setting path value)).2

/-- The body of the document when the path `b.d` is set. -/
def Fields.edited : Fields := [("b", .object [("c", .string "v"), ("d", .string "w")])]

theorem Host.decodes_of_reached_edited : ∃ s x t, (edited "b.d" (.string "w")).store = some s ∧ s.session? "main" = some x
    ∧ s.file.contents.table? "notes" = some t ∧ t.rows.length = 1 ∧ (∀ r ∈ t.rows, r.data.decode = .ok Fields.edited)
    ∧ StoreError.Decodes (Collection.notes.result (s.workspace x)).1 := by
  have evaluated : ((edited "b.d" (.string "w")).store.bind fun s => (s.session? "main").bind fun x =>
      (s.file.contents.table? "notes").map fun t => (x.transaction.isNone, t.rows.map fun r => r.data.text))
      = some (true, [(Json.object Fields.edited).text]) := by decide +kernel
  obtain ⟨s, x, opened, session, found⟩ := Host.exists_session_of_bind evaluated
  obtain ⟨t, table, eq⟩ := Option.map_eq_some_iff.1 found
  obtain ⟨idle, texts⟩ := Prod.mk.inj eq
  have bounded : ((Update.parse (.object [("$set", .object [("b.d", .string "w")])])).toOption.map fun u =>
      decide u.Shallow) = some true := by decide +kernel
  have calls : ∀ r ∈ StoreRequest.setting "b.d" (.string "w"), StoreRequest.Within CollectionRequest.Shallow r := by
    refine List.forall_mem_cons.2 ⟨trivial, List.forall_mem_cons.2 ⟨Nat.le_of_ble_eq_true rfl,
      List.forall_mem_singleton.2 ⟨fun u parsed => ?_, fun wanted => absurd wanted Bool.false_ne_true⟩⟩⟩
    rw [parsed] at bounded
    exact of_decide_eq_true (Option.some.inj bounded)
  obtain ⟨rows, sessions⟩ :=
    decodes_of_reached (Disk.start_fresh []) calls (h := edited "b.d" (.string "w")) (by rw [edited, blank]) opened
  have plain : (Json.object Fields.edited).isPlain = true := by decide
  have stored : ∀ r ∈ t.rows, r.data.text = (Json.object Fields.edited).text := by
    intro r mem
    have shown : r.data.text ∈ t.rows.map fun r => r.data.text := List.mem_map_of_mem mem
    rw [texts] at shown
    exact List.mem_singleton.1 shown
  have here : (s.workspace x).current = s.file.contents := by
    simp only [Store.workspace, Workspace.current, Option.isNone_iff_eq_none.1 idle]
  refine ⟨s, x, t, opened, session, table, by simpa using congrArg List.length texts, fun r mem => ?_, ?_⟩
  · exact (rows _ (.inl rfl) t (mem_of_table? table).1 r mem).2 _ plain (stored r mem)
  · refine (sessions "main" x session _).1 _ _ fun r known => ?_
    obtain ⟨u, found, mem⟩ := known
    rw [here, table] at found
    obtain rfl := Option.some.inj found
    rw [Body.tree_of_text (Json.isFinite_of_isPlain _ plain) (stored r mem)]
    simp [Tree.DoublesRead, Fields.edited, Json.tree, Json.fieldTrees, Tree.Consists, Tree.MembersConsist]

/-- So many arrays, one in the other. -/
def Json.nested : Nat → Json
  | 0 => .null
  | n + 1 => .array [nested n]

/-- A value set so far below others that the body nests deeper than what decodes, though the update does not: the
update succeeds, and then nothing can be found. -/
theorem Host.written_unreadable : (Json.object [("$set", .object [("b.d.e", .nested 125)])]).tree.depth = Tree.decodeDepth
    ∧ ∃ s x w, (edited "b.d.e" (.nested 125)).store = some s ∧ s.session? "main" = some x
    ∧ Collection.notes.result (s.workspace x) = (.error (.serialization .unreadable), w) := by
  have evaluated : ((edited "b.d.e" (.nested 125)).store.bind fun s => (s.session? "main").map fun x =>
      (Collection.notes.result (s.workspace x)).1.map fun _ => ()) = some (.error (.serialization .unreadable)) := by
    decide +kernel
  obtain ⟨s, x, opened, session, eq⟩ := Host.exists_session_of_map evaluated
  cases ran : Collection.notes.result (s.workspace x) with
  | mk r w =>
    rw [ran] at eq
    cases r with
    | error e =>
      cases eq
      exact ⟨by decide +kernel, s, x, w, opened, session, ran⟩
    | ok docs => cases eq

end Dossier
