import Dossier.Proofs.Database.Columned

/-!
# The bodies that statements give to rows

A statement gives bodies to rows of one table (`Database.bodiesOf`), and of all else it changes only columns of rows and which
rows there are. `Database.Gave table B`: of a database nothing but its tables has changed, these have the columns that they had,
and their rows were there with their bodies, or are rows of the table that have been given bodies of which `B` holds. What is to
be kept of stored bodies, of the layout of tables or of triggers and registries is read off that.
-/

namespace Dossier

open Text Outcome

namespace Database

variable {db mid after : Database} {table other : String} {name : CollectionName} {t : Table}

/-- The bodies that changes of a table give to rows, if they can be made. -/
def given (db : Database) (table : String) (changes : Table → Except EngineError (List (Row × Row))) : List Body :=
  match db.tableOf table >>= changes with
  | .ok cs => cs.map fun c => c.2.data
  | .error _ => []

/-- The bodies that a statement gives to rows. -/
def bodiesOf (db : Database) (name : CollectionName) : {a : Answer} → Statement a → List Body
  | _, .change changes p c now => db.given name.text fun t => edits changes now (t.targets p c)
  | _, .overwrite id body now => db.given name.text fun t =>
    (t.rows.filter fun row => row.id = id).mapM fun row => do return (row, ← row.withBody body now)
  | _, .insert _ body _ => (Body.ofText? body).toList
  | _, _ => []

theorem given_eq {changes : Table → Except EngineError (List (Row × Row))} {cs : List (Row × Row)}
    (found : db.tableOf table = .ok t) (made : changes t = .ok cs) : db.given table changes = cs.map fun c => c.2.data := by
  rw [given, found, ok_bind, made]

/-- The names of the tables, each with its columns beyond those of every table. -/
def layout (db : Database) : List (String × List String) := db.tables.map fun t => (t.name, t.columns)

/-- A table of the name has a row of the number with the body. -/
def HasBody (db : Database) (table : String) (rowid : Int) (b : Body) : Prop :=
  ∃ t ∈ db.tables, sameName t.name table = true ∧ ∃ r ∈ t.rows, r.rowid = rowid ∧ r.data = b

theorem hasBody {r : Row} (mem : t ∈ db.tables) (here : r ∈ t.rows) : db.HasBody t.name r.rowid r.data :=
  ⟨t, mem, sameName_refl _, r, here, rfl, rfl⟩

theorem HasBody.congr {rowid : Int} {b : Body} (h : db.HasBody table rowid b) (same : sameName table other = true) :
    db.HasBody other rowid b :=
  have ⟨t, mem, on, row⟩ := h; ⟨t, mem, sameName_trans on same, row⟩

/-- Of the database nothing but the tables has changed, and these have the columns that they had. Their rows were there with
their numbers and bodies, or are rows of the one table that have been given bodies of which `B` holds. -/
structure Gave (table : String) (B : Body → Prop) (db after : Database) : Prop where
  rest : after = { db with tables := after.tables }
  layout : after.layout = db.layout
  rows : ∀ t ∈ after.tables, ∀ r ∈ t.rows, sameName t.name table = true ∧ B r.data ∨ db.HasBody t.name r.rowid r.data

namespace Gave

variable {B C : Body → Prop}

theorem refl (db : Database) : Gave table B db db := ⟨rfl, rfl, fun _ mem _ here => .inr (hasBody mem here)⟩

theorem trans (h : Gave table B db mid) (h' : Gave table B mid after) : Gave table B db after := by
  refine ⟨?_, h'.layout.trans h.layout, fun t mem r here => ?_⟩
  · rw [h'.rest, h.rest]
  · rcases h'.rows t mem r here with new | ⟨s, hs, same, q, hq, number, body⟩
    · exact .inl new
    · rw [← number, ← body]
      exact (h.rows s hs q hq).imp (fun ⟨on, fine⟩ => ⟨sameName_trans (sameName_symm same) on, fine⟩) fun old => old.congr same

theorem mono (h : Gave table B db after) (imp : ∀ b, B b → C b) : Gave table C db after :=
  ⟨h.rest, h.layout, fun t mem r here => (h.rows t mem r here).imp_left (And.imp_right (imp _))⟩

/-- A table changes in its rows. -/
theorem of_mapTable {f : Table → Table} (name : ∀ t, (f t).name = t.name) (columns : ∀ t, (f t).columns = t.columns)
    (rows : ∀ t ∈ db.tables, sameName t.name other = true → ∀ r ∈ (f t).rows,
      sameName t.name table = true ∧ B r.data ∨ db.HasBody t.name r.rowid r.data) : Gave table B db (db.mapTable other f) := by
  refine ⟨rfl, ?_, fun t mem r here => ?_⟩
  · unfold Database.layout Database.mapTable
    rw [List.map_map]
    refine List.map_congr_left fun t _ => ?_
    rw [Function.comp_apply]
    split
    · rw [name, columns]
    · rfl
  · obtain ⟨s, hs, rfl⟩ := List.mem_map.1 mem
    by_cases on : sameName s.name other = true
    · rw [if_pos on] at here ⊢
      rw [name]
      exact rows s hs on r here
    · rw [if_neg on] at here ⊢
      exact .inr (hasBody hs here)

theorem putRow {row : Row} (fine : sameName other table = true ∧ B row.data ∨ db.HasBody other row.rowid row.data) :
    Gave table B db (db.putRow other row) := by
  refine .of_mapTable (fun _ => rfl) (fun _ => rfl) fun t mem on r here => ?_
  obtain ⟨s, hs, rfl⟩ := List.mem_map.1 here
  split
  · exact fine.imp (And.imp_left (sameName_trans on)) fun old => old.congr (sameName_symm on)
  · exact .inr (hasBody mem hs)

theorem deleteRows (rowids : List Int) : Gave table B db (db.deleteRows other rowids) :=
  .of_mapTable (fun _ => rfl) (fun _ => rfl) fun _ mem _ _ here => .inr (hasBody mem (List.mem_filter.1 here).1)

/-! ## Columns -/

theorem setColumn {rowid : Int} {column : String} {v : Value} (made : db.setColumn other rowid column v = .ok after) :
    Gave table B db after := by
  obtain ⟨t, found, ⟨-, rfl⟩ | ⟨row, here, -, -, rfl⟩⟩ := setColumn_cases made
  · exact .refl _
  · have ⟨mem, on⟩ := mem_of_table? found
    exact .putRow (.inr ((hasBody mem here).congr on))

theorem fillColumn {column : String} {path : FieldPath} (made : db.fillColumn other column path = .ok after) :
    Gave table B db after := by
  obtain ⟨t, -, made⟩ := bind_eq_ok.1 made
  exact foldlM_keeps (P := Gave table B db) (fun _ _ mid next h made => h.trans (.setColumn made)) (.refl db) made

theorem foldlM_after {row : Row} {gs : List Trigger} (made : gs.foldlM (Database.after row) db = .ok after) :
    Gave table B db after := by
  refine foldlM_keeps (P := Gave table B db) (fun g _ mid next h made => ?_) (.refl db) made
  unfold Database.after at made
  split at made
  · exact h.trans (.setColumn made)
  · cases made
    exact h

/-! ## Statements -/

theorem insertRow {id text : String} {now : Int} (made : db.insertRow table id text now = .ok after) :
    Gave table (Body.ofText? text = some ·) db after := by
  obtain ⟨t, -, made⟩ := bind_eq_ok.1 made
  obtain ⟨gs, -, made⟩ := bind_eq_ok.1 made
  obtain ⟨b, valid, made⟩ := bind_eq_ok.1 made
  obtain ⟨_, -, made⟩ := bind_eq_ok.1 made
  simp only at made
  split at made
  · cases made
  · refine Gave.trans ?_ (.foldlM_after made)
    refine .of_mapTable (fun _ => rfl) (fun _ => rfl) fun t mem on r here => ?_
    rcases List.mem_append.1 here with old | new
    · exact .inr (hasBody mem old)
    · rw [List.mem_singleton.1 new]
      exact .inl ⟨on, validBody_eq_ok valid⟩

theorem updateRow {gs : List Trigger} {c : Row × Row} (fine : B c.2.data) (made : Database.updateRow gs table db c = .ok after) :
    Gave table B db after := by
  obtain ⟨_, -, made⟩ := bind_eq_ok.1 made
  exact Gave.trans (.putRow (.inl ⟨sameName_refl _, fine⟩)) (.foldlM_after made)

theorem updateRows {n : Nat} {changes : Table → Except EngineError (List (Row × Row))}
    (made : db.updateRows table changes = .ok (n, after)) : Gave table (· ∈ db.given table changes) db after := by
  obtain ⟨t, found, made⟩ := bind_eq_ok.1 made
  obtain ⟨gs, -, made⟩ := bind_eq_ok.1 made
  obtain ⟨cs, changed, made⟩ := bind_eq_ok.1 made
  obtain ⟨last, folded, made⟩ := bind_eq_ok.1 made
  cases made
  rw [given_eq found changed]
  exact foldlM_keeps (P := Gave table (· ∈ cs.map fun c => c.2.data) db)
    (fun c mem mid next h made => h.trans (.updateRow (List.mem_map_of_mem mem) made)) (.refl db) folded

/-- A statement that writes gives rows of its table the bodies that it gives, and no others. -/
theorem run {r : Resolver} {s : Statement .changed} {n : Nat} (made : db.run name r s = .ok (n, after)) :
    Gave name.text (· ∈ db.bodiesOf name s) db after := by
  replace made := answer_of_run made
  cases s with
  | change c p cardinality now => exact .updateRows made
  | overwrite id text now => exact .updateRows made
  | insert id text now =>
    obtain ⟨last, inserted, made⟩ := bind_eq_ok.1 made
    cases made
    exact (Gave.insertRow inserted).mono fun b => Option.mem_toList.2
  | delete p cardinality =>
    obtain ⟨t, -, made⟩ := bind_eq_ok.1 made
    cases made
    exact .deleteRows _

end Gave

/-- The steps of a promotion: the column is there, the triggers are made, columns of rows are written or not, the index is made,
and the path is entered. -/
theorem promote_steps {path : FieldPath} {unique : Bool} {time : Int} (made : db.promote name path unique time = .ok after) :
    ∃ placed synced filled indexed : Database, db.ensureColumn name.text path.column = .ok placed
      ∧ placed.replaceTriggers (name.copyTriggers path path.column) = .ok synced ∧ Gave name.text (fun _ => False) synced filled
      ∧ filled.createIndex (name.columnIndex path.column unique) = .ok indexed
      ∧ after = indexed.recordPromotion (name.promotion path unique time) := by
  obtain ⟨placed, ensured, made⟩ := bind_eq_ok.1 made
  obtain ⟨synced, triggered, made⟩ := bind_eq_ok.1 made
  obtain ⟨indexed, created, made⟩ := bind_eq_ok.1 made
  cases made
  refine ⟨placed, synced, _, indexed, ensured, triggered, ?_, created, rfl⟩
  cases written : synced.fillColumn name.text path.column path with
  | error e => exact .refl synced
  | ok filled => exact .fillColumn written

end Database

end Dossier
