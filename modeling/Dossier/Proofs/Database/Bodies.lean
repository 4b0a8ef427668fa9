import Dossier.Proofs.Database.Giving

/-!
# What holds of all stored bodies

`Database.Bodies B`: the property `B` holds of the body of every row. A body changes only where a statement
writes one, so a statement keeps `B` if `B` holds of what it writes (`Statement.Writes`), whatever triggers and
indexes there are.
-/

namespace Dossier

open Text Outcome

namespace Database

/-- The property holds of the body of every row. -/
def Bodies (B : Body → Prop) (db : Database) : Prop := ∀ t ∈ db.tables, ∀ r ∈ t.rows, B r.data

variable {B : Body → Prop} {db after : Database} {table : String} {t : Table}

theorem bodies_empty : empty.Bodies B := fun _ mem => by cases mem

namespace Bodies

theorem row (h : db.Bodies B) (found : db.table? table = some t) : ∀ r ∈ t.rows, B r.data := h t (mem_of_table? found).1

/-- Changes whose new bodies have the property give rows no others. -/
theorem forall_given {changes : Table → Except EngineError (List (Row × Row))} (h : db.Bodies B)
    (writes : ∀ t cs, (∀ r ∈ t.rows, B r.data) → changes t = .ok cs → ∀ c ∈ cs, B c.2.data) : ∀ b ∈ db.given table changes, B b := by
  intro b mem
  cases found : db.tableOf table with
  | error e => rw [given, found] at mem; cases mem
  | ok t =>
    cases made : changes t with
    | error e => rw [given, found, ok_bind, made] at mem; cases mem
    | ok cs =>
      rw [given_eq found made] at mem
      obtain ⟨c, here, rfl⟩ := List.mem_map.1 mem
      exact writes t cs (h.row (tableOf_eq_ok.1 found)) made c here

/-- What holds of all stored bodies and of those that have been given to rows holds of all bodies afterwards. -/
theorem gave (h : db.Bodies B) (gave : Gave table B db after) : after.Bodies B := by
  intro t mem r here
  rcases gave.rows t mem r here with ⟨-, new⟩ | ⟨s, hs, -, q, hq, -, body⟩
  · exact new
  · exact body ▸ h s hs q hq

theorem mapTable {f : Table → Table} (h : db.Bodies B) (keeps : ∀ t, (∀ r ∈ t.rows, B r.data) → ∀ r ∈ (f t).rows, B r.data) :
    (db.mapTable table f).Bodies B := by
  intro t mem
  obtain ⟨s, hs, rfl⟩ := List.mem_map.1 mem
  split
  · exact keeps s (h s hs)
  · exact h s hs

/-- An update keeps the property if it holds of the new bodies. -/
theorem updateRows {n : Nat} {changes : Table → Except EngineError (List (Row × Row))} (h : db.Bodies B)
    (writes : ∀ t cs, (∀ r ∈ t.rows, B r.data) → changes t = .ok cs → ∀ c ∈ cs, B c.2.data)
    (made : db.updateRows table changes = .ok (n, after)) : after.Bodies B :=
  h.gave <| (Gave.updateRows made).mono (h.forall_given writes)

/-! ## The schema -/

/-- What changes neither tables nor rows. -/
theorem congr (h : db.Bodies B) (same : after.tables = db.tables) : after.Bodies B := by
  unfold Bodies
  rw [same]
  exact h

theorem createTable {name : CollectionName} (h : db.Bodies B) (made : db.createTable name = .ok after) : after.Bodies B := by
  unfold Database.createTable at made
  split at made
  · cases made; exact h
  · split at made
    · cases made
    · cases made
      intro t mem
      rcases List.mem_append.1 mem with old | new
      · exact h t old
      · rw [List.mem_singleton.1 new]
        exact fun r mem => by cases mem

theorem createIndex {i : Index} (h : db.Bodies B) (made : db.createIndex i = .ok after) : after.Bodies B := by
  rcases createIndex_eq_ok made with ⟨-, rfl⟩ | ⟨_, -, -, rfl⟩
  · exact h
  · exact h.congr rfl

theorem replaceTriggers {gs : List Trigger} (h : db.Bodies B) (made : db.replaceTriggers gs = .ok after) :
    after.Bodies B := by
  obtain ⟨_, rfl, -⟩ := replaceTriggers_eq_ok made
  exact h.congr rfl

theorem promote {name : CollectionName} {path : FieldPath} {unique : Bool} {time : Int} (h : db.Bodies B)
    (made : db.promote name path unique time = .ok after) : after.Bodies B := by
  obtain ⟨placed, synced, filled, indexed, ensured, replaced, written, created, rfl⟩ := promote_steps made
  obtain ⟨f, -, rows, rfl⟩ := ensureColumn_tables ensured
  have placed : (db.mapTable name.text f).Bodies B := h.mapTable fun t all r mem => all r (rows t ▸ mem)
  have filled : filled.Bodies B := (placed.replaceTriggers replaced).gave (written.mono fun _ => False.elim)
  exact (filled.createIndex created).congr rfl

theorem recordCheck (h : db.Bodies B) (c : CheckEntry) : (db.recordCheck c).Bodies B := by
  unfold Database.recordCheck
  split
  · exact h
  · exact h.congr rfl

end Bodies

end Database

/-- The property holds of all that the statement may write, if it holds of the bodies that there are. -/
def Statement.Writes (B : Body → Prop) : {a : Answer} → Statement a → Prop
  | _, insert _ text _ | _, overwrite _ text _ => ∀ b : Body, b.text = text → B b
  | _, change c _ _ _ => ∀ b b' : Body, B b → b'.text = (c.edit b.tree).text → B b'
  | _, _ => True

namespace Database.Bodies

variable {B : Body → Prop} {db after : Database} {name : CollectionName}

theorem withBody {r s : Row} {text : String} {now : Int} (writes : ∀ b : Body, b.text = text → B b)
    (made : r.withBody text now = .ok s) : B s.data := by
  obtain ⟨b, valid, rfl⟩ := withBody_eq_ok made
  exact writes b (Body.ofText?_eq_some valid)

theorem edits {c : Changes} {now : Int} {rows : List Row} {cs : List (Row × Row)}
    (writes : ∀ b b' : Body, B b → b'.text = (c.edit b.tree).text → B b') (all : ∀ r ∈ rows, B r.data)
    (made : edits c now rows = .ok cs) : ∀ c ∈ cs, B c.2.data := by
  induction rows generalizing cs with
  | nil => cases made; simp
  | cons r rest ih =>
    obtain ⟨here, others⟩ := List.forall_mem_cons.1 all
    unfold Database.edits at made
    rw [List.foldrM_cons] at made
    obtain ⟨later, done, made⟩ := bind_eq_ok.1 made
    simp only at made
    split at made
    · cases made
      exact ih others done
    · obtain ⟨s, state, made⟩ := bind_eq_ok.1 made
      cases made
      exact List.forall_mem_cons.2 ⟨withBody (fun b text => writes _ b here text) state, ih others done⟩

/-- New states that are made of rows one after another. -/
theorem written {f : Row → Except EngineError Row} {rows : List Row} {cs : List (Row × Row)}
    (writes : ∀ r s, f r = .ok s → B s.data) (made : (rows.mapM fun r => do return (r, ← f r)) = .ok cs) :
    ∀ c ∈ cs, B c.2.data := by
  intro c mem
  obtain ⟨r, -, made⟩ := exists_of_mapM made mem
  obtain ⟨s, state, eq⟩ := bind_eq_ok.1 made
  cases eq
  exact writes r s state

/-- A statement gives rows no bodies but those that it may write. -/
theorem forall_bodiesOf (h : db.Bodies B) {s : Statement .changed} (writes : s.Writes B) : ∀ b ∈ db.bodiesOf name s, B b := by
  cases s with
  | change c p cardinality now =>
    refine h.forall_given fun t cs all changed => edits writes (fun r mem => ?_) changed
    exact all r ((targets_sublist t p cardinality).subset mem)
  | overwrite id text now => exact h.forall_given fun t cs _ changed => written (fun _ _ => withBody writes) changed
  | insert id text now => exact fun b valid => writes b (Body.ofText?_eq_some (Option.mem_toList.1 valid))
  | delete p cardinality => exact fun b mem => absurd mem List.not_mem_nil

/-- A statement keeps what holds of all that it writes. -/
theorem run {r : Resolver} {s : Statement .changed} {n : Nat} (h : db.Bodies B) (writes : s.Writes B)
    (made : db.run name r s = .ok (n, after)) : after.Bodies B := h.gave ((Gave.run made).mono (h.forall_bodiesOf writes))

/-- The rows that a statement reads are rows of a table. -/
theorem fetched {r : Resolver} {p : Predicate} {cardinality : Cardinality} {rows : List Row} (h : db.Bodies B)
    (read : db.run name r (.fetch p cardinality) = .ok (rows, after)) : ∀ r ∈ rows, B r.data := by
  obtain ⟨t, found, read⟩ := bind_eq_ok.1 (answer_of_run read)
  rw [tableOf_eq_ok] at found
  cases read
  exact fun r mem => h.row found r ((targets_sublist t p cardinality).subset mem)

end Database.Bodies

end Dossier
