import Dossier.Proofs.Database.Tables

/-!
# What a write of rows does

While no trigger waits for columns (`Database.Thawed`), writing a promoted column changes one row, and what a
write does to a row, its triggers included, is said by `Database.copied`. The lemmas on `insertRow` and
`updateRows` give the database after a write that does not fail.
-/

namespace Dossier

open Text Outcome

namespace Database

/-- Changes a row of a table. -/
def editRow (db : Database) (table : String) (rowid : Int) (f : Row → Row) : Database :=
  db.mapTable table (Table.editRow rowid f)

/-- No trigger waits for every update. -/
def Thawed (db : Database) : Prop := ∀ g ∈ db.triggers, g.event ≠ .anyUpdate

section
variable {db : Database} {table : String} {rowid : Int} {f : Row → Row}

@[simp] theorem mapTable_triggers (f : Table → Table) : (db.mapTable table f).triggers = db.triggers := rfl

@[simp] theorem mapTable_indexes (f : Table → Table) : (db.mapTable table f).indexes = db.indexes := rfl

@[simp] theorem mapTable_promotions (f : Table → Table) : (db.mapTable table f).promotions = db.promotions := rfl

@[simp] theorem editRow_triggers : (db.editRow table rowid f).triggers = db.triggers := rfl

@[simp] theorem editRow_indexes : (db.editRow table rowid f).indexes = db.indexes := rfl

@[simp] theorem editRow_promotions : (db.editRow table rowid f).promotions = db.promotions := rfl

theorem Tidy.editRow (tidy : db.Tidy) (keeps : ∀ r : Row, r.rowid = rowid → (f r).rowid = rowid) :
    (db.editRow table rowid f).Tidy :=
  tidy.mapTable (fun _ => rfl) fun t mem _ => by
    rw [Table.rowids_editRow keeps]
    exact tidy.rowids t mem

/-- A row with a number of its own may be added. -/
theorem Tidy.addRow {t : Table} (tidy : db.Tidy) (found : db.table? table = some t) {row : Row}
    (fresh : ∀ r ∈ t.rows, r.rowid ≠ row.rowid) : (db.mapTable table (Table.addRow row)).Tidy := by
  refine tidy.mapTable (Table.addRow_name row) fun u mem here => ?_
  obtain rfl := Option.some.inj ((tidy.table?_eq_some mem here).symm.trans found)
  simp only [Table.addRow, List.map_append, List.map_cons, List.map_nil]
  refine List.nodup_append.2 ⟨tidy.rowids _ mem, by simp, ?_⟩
  rintro _ old n new rfl
  obtain ⟨r, mem, rfl⟩ := List.mem_map.1 old
  exact fresh r mem (List.mem_singleton.1 new)

theorem editRow_editRow (keeps : ∀ r : Row, r.rowid = rowid → (f r).rowid = rowid) (g : Row → Row) :
    (db.editRow table rowid f).editRow table rowid g = db.editRow table rowid (g ∘ f) := by
  unfold editRow
  rw [mapTable_mapTable (Table.editRow_name rowid f)]
  congr 1
  funext t
  exact Table.editRow_editRow keeps g t

theorem editRow_congr {other : String} (h : sameName table other = true) :
    db.editRow table rowid f = db.editRow other rowid f := mapTable_congr h _

/-- Changes of a row agree if they agree on the row of its number. -/
theorem editRow_congr_of_eq {g : Row → Row} (tidy : db.Tidy) {t : Table} (found : db.table? table = some t)
    (same : ∀ r ∈ t.rows, r.rowid = rowid → f r = g r) : db.editRow table rowid f = db.editRow table rowid g := by
  refine tidy.mapTable_congr_of_eq found ?_
  simp only [Table.editRow]
  congr 1
  refine List.map_congr_left fun r mem => ?_
  split
  · exact same r mem ‹_›
  · rfl

end

/-! ## Triggers -/

variable {db after : Database} {table : String} {t : Table}

/-- The triggers that wait for a change of a table. -/
def awaiting (db : Database) (table : String) (change : RowChange) : List Trigger :=
  (db.triggersOn table).filter fun g => g.event.awaits change

theorem mem_awaiting {change : RowChange} {g : Trigger} :
    g ∈ db.awaiting table change ↔ g ∈ db.triggers ∧ sameName g.table table = true ∧ g.event.awaits change = true := by
  simp only [awaiting, triggersOn, List.mem_filter, and_assoc]

theorem awaiting_congr {other : String} (h : sameName table other = true) (change : RowChange) :
    db.awaiting table change = db.awaiting other change := by
  unfold awaiting triggersOn
  simp only [sameName_right h]

/-- Nothing waits for a write of a column alone. -/
theorem Thawed.awaiting_columnUpdate (thawed : db.Thawed) (table : String) : db.awaiting table .columnUpdate = [] := by
  refine List.filter_eq_nil_iff.2 fun g mem => ?_
  have := thawed g (List.mem_filter.1 mem).1
  cases h : g.event <;> simp_all [TriggerEvent.awaits]

theorem Thawed.ready_columnUpdate (thawed : db.Thawed) (t : Table) : db.ready t .columnUpdate = .ok [] := by
  have waiting := thawed.awaiting_columnUpdate t.name
  unfold awaiting at waiting
  simp [ready, waiting]

end Database

namespace Trigger

/-- What a trigger that copies writes into the row of a body. -/
def copyInto (body : Body) (row : Row) (g : Trigger) : Row :=
  match g.action with
  | .copy path column => row.setPromoted column (body.extract path)
  | _ => row

@[simp] theorem copyInto_rowid (body : Body) (row : Row) (g : Trigger) : (g.copyInto body row).rowid = row.rowid := by
  unfold copyInto
  split <;> rfl

/-- A prepared trigger copies what the trigger copies, on the table of the trigger. -/
theorem copyInto_prepare {t : Table} {g prepared : Trigger} (h : prepare t g = .ok prepared) :
    prepared.table = g.table ∧ ∀ body row, prepared.copyInto body row = g.copyInto body row := by
  unfold prepare at h
  split at h
  · rename_i violation message check
    split at h
    · cases h
      exact ⟨rfl, fun body row => by simp [copyInto, check]⟩
    · cases h
  · cases h
    exact ⟨rfl, fun _ _ => rfl⟩

theorem foldl_copyInto_rowid (body : Body) (gs : List Trigger) (row : Row) :
    (gs.foldl (fun r g => g.copyInto body r) row).rowid = row.rowid := by
  induction gs generalizing row with
  | nil => rfl
  | cons g rest ih => rw [List.foldl_cons, ih, copyInto_rowid]

/-- A column holds the value that every trigger that writes it copies, if there is one or the row holds it before. -/
theorem promotedValue_foldl_copyInto {gs : List Trigger} {body : Body} {column : String} {v : Value}
    (agree : ∀ g ∈ gs, ∀ path c, g.action = .copy path c → sameName c column = true → body.extract path = v) (row : Row)
    (written : row.promotedValue column = v ∨ ∃ g ∈ gs, ∃ path c, g.action = .copy path c ∧ sameName c column = true) :
    (gs.foldl (fun r g => g.copyInto body r) row).promotedValue column = v := by
  induction gs generalizing row with
  | nil =>
    rcases written with held | ⟨g, mem, -⟩
    · exact held
    · cases mem
  | cons g rest ih =>
    rw [List.foldl_cons]
    refine ih (fun g mem => agree g (List.mem_cons_of_mem _ mem)) _ ?_
    by_cases writes : ∃ path c, g.action = .copy path c ∧ sameName c column = true
    · obtain ⟨path, c, action, same⟩ := writes
      left
      simp only [copyInto, action, Row.promotedValue_setPromoted_of_same _ _ same]
      exact agree g List.mem_cons_self path c action same
    · rcases written with held | ⟨h, mem, path, c, action, same⟩
      · left
        unfold copyInto
        split
        · rename_i path c action
          have apart : sameName c column = false := by
            rw [Bool.eq_false_iff]
            exact fun same => writes ⟨path, c, action, same⟩
          rw [Row.promotedValue_setPromoted_of_ne _ _ apart, held]
        · exact held
      · rcases List.mem_cons.1 mem with rfl | later
        · exact absurd ⟨path, c, action, same⟩ writes
        · exact .inr ⟨h, later, path, c, action, same⟩

end Trigger

namespace Database

/-- The row after a write of it, when the triggers of the change have run. -/
def copied (db : Database) (table : String) (change : RowChange) (row : Row) : Row :=
  (db.awaiting table change).foldl (fun r g => g.copyInto row.data r) row

@[simp] theorem copied_rowid (db : Database) (table : String) (change : RowChange) (row : Row) :
    (db.copied table change row).rowid = row.rowid := Trigger.foldl_copyInto_rowid _ _ _

variable {db after : Database} {table : String} {t : Table}

/-- Triggers that do after a change of a table what the waiting ones do. -/
structure Prepared (db : Database) (table : String) (change : RowChange) (gs : List Trigger) : Prop where
  on : ∀ g ∈ gs, sameName g.table table = true
  copies : ∀ row : Row, gs.foldl (fun r g => g.copyInto row.data r) row = db.copied table change row

/-- The triggers that are ready are those that wait, with the conditions resolved. -/
theorem prepared_of_ready {change : RowChange} {gs : List Trigger} (found : db.table? table = some t)
    (h : db.ready t change = .ok gs) : db.Prepared table change gs := by
  have prepared : ∀ (l gs : List Trigger), (∀ g ∈ l, sameName g.table t.name = true) →
      l.mapM (Trigger.prepare t) = .ok gs → (∀ g ∈ gs, sameName g.table t.name = true)
        ∧ ∀ body row, gs.foldl (fun r g => g.copyInto body r) row = l.foldl (fun r g => g.copyInto body r) row := by
    intro l
    induction l with
    | nil =>
      rintro gs - h
      cases h
      exact ⟨by simp, fun _ _ => rfl⟩
    | cons g rest ih =>
      intro gs on h
      obtain ⟨first, others, made, later, rfl⟩ := mapM_cons_eq_ok.1 h
      obtain ⟨table, copies⟩ := Trigger.copyInto_prepare made
      obtain ⟨tables, folds⟩ := ih others (fun g mem => on g (List.mem_cons_of_mem _ mem)) later
      refine ⟨?_, fun body row => by rw [List.foldl_cons, List.foldl_cons, copies, folds]⟩
      rintro g' (_ | ⟨_, mem⟩)
      · rw [table]
        exact on g List.mem_cons_self
      · exact tables g' mem
  have name := (mem_of_table? found).2
  obtain ⟨on, copies⟩ := prepared _ gs (fun g mem => (mem_awaiting.1 mem).2.1) h
  refine ⟨fun g mem => sameName_trans (on g mem) name, fun row => ?_⟩
  unfold copied
  rw [← awaiting_congr name]
  exact copies _ _

/-! ## Columns -/

/-- Writing a column that does not fail leaves all as it is where no row has the number. Where one has, the row with the column
written takes its place, and violates no index. -/
theorem setColumn_cases {rowid : Int} {column : String} {v : Value} (made : db.setColumn table rowid column v = .ok after) :
    ∃ t, db.table? table = some t ∧ ((∀ r ∈ t.rows, r.rowid ≠ rowid) ∧ after = db
      ∨ ∃ row ∈ t.rows, row.rowid = rowid ∧ db.conflict? t (row.setPromoted column v) = none
        ∧ after = db.putRow table (row.setPromoted column v)) := by
  obtain ⟨t, found, made⟩ := bind_eq_ok.1 made
  obtain ⟨gs, -, made⟩ := bind_eq_ok.1 made
  refine ⟨t, tableOf_eq_ok.1 found, ?_⟩
  cases here : t.rows.find? fun r => r.rowid = rowid with
  | none =>
    simp only [here] at made
    cases made
    exact .inl ⟨fun r mem => by simpa using List.find?_eq_none.1 here r mem, rfl⟩
  | some row =>
    simp only [here] at made
    obtain ⟨_, -, made⟩ := bind_eq_ok.1 made
    cases free : db.conflict? t (row.setPromoted column v) with
    | none =>
      simp only [free] at made
      cases made
      exact .inr ⟨row, List.mem_of_find?_eq_some here, by simpa using List.find?_some here, free, rfl⟩
    | some e =>
      simp only [free] at made
      cases made

/-- Writing a column that does not fail changes the row of the number, and violates no index. -/
theorem setColumn_eq_ok (tidy : db.Tidy) {rowid : Int} {column : String} {v : Value}
    (h : db.setColumn table rowid column v = .ok after) :
    ∃ t, db.table? table = some t ∧ after = db.editRow table rowid (·.setPromoted column v)
      ∧ ∀ r ∈ t.rows, r.rowid = rowid → db.conflict? t (r.setPromoted column v) = none := by
  obtain ⟨t, found, ⟨absent, eq⟩ | ⟨row, mem, rfl, free, eq⟩⟩ := setColumn_cases h
  · refine ⟨t, found, eq.trans (tidy.mapTable_eq_self found (Table.editRow_of_absent _ absent)).symm, fun r mem same => ?_⟩
    exact absurd same (absent r mem)
  · have only : ∀ r ∈ t.rows, r.rowid = row.rowid → r = row := fun r mem' same => tidy.row_eq found mem' mem same
    have put : db.putRow table (row.setPromoted column v) = db.editRow table row.rowid fun _ => row.setPromoted column v := rfl
    refine ⟨t, found, ?_, fun r mem' same => by rw [only r mem' same]; exact free⟩
    rw [eq, put]
    exact editRow_congr_of_eq tidy found fun r mem' same => by rw [only r mem' same]

/-- What a trigger does after a row has been written. -/
theorem after_eq_ok (tidy : db.Tidy) {row : Row} {g : Trigger}
    (on : sameName g.table table = true) (found : db.table? table = some t) (h : Database.after row db g = .ok after) :
    after = db.editRow table row.rowid fun r => g.copyInto row.data r := by
  unfold Database.after at h
  unfold Trigger.copyInto
  cases action : g.action with
  | copy path column =>
    simp only [action] at h ⊢
    obtain ⟨_, _, eq, _⟩ := setColumn_eq_ok tidy h
    rw [eq, editRow_congr on]
  | check | refuse =>
    simp only [action] at h ⊢
    cases h
    exact (tidy.mapTable_eq_self found (by simp [Table.editRow])).symm

/-- Triggers that run after a row has been written copy into that row. -/
theorem foldlM_after_eq_ok (tidy : db.Tidy) {row : Row} {gs : List Trigger}
    (on : ∀ g ∈ gs, sameName g.table table = true) (found : db.table? table = some t)
    (h : gs.foldlM (Database.after row) db = .ok after) :
    after = db.editRow table row.rowid fun r => gs.foldl (fun r g => g.copyInto row.data r) r := by
  induction gs generalizing db t with
  | nil =>
    cases h
    exact (tidy.mapTable_eq_self found (by simp [Table.editRow])).symm
  | cons g rest ih =>
    rw [List.foldlM_cons] at h
    obtain ⟨mid, first, h⟩ := bind_eq_ok.1 h
    obtain rfl := after_eq_ok tidy (on g List.mem_cons_self) found first
    have keeps : ∀ r : Row, r.rowid = row.rowid → (g.copyInto row.data r).rowid = row.rowid := fun r same => by simp [same]
    have found' := found_mapTable (Table.editRow_name row.rowid fun r => g.copyInto row.data r) found
    rw [ih (tidy.editRow keeps) (fun g mem => on g (List.mem_cons_of_mem _ mem)) found' h,
      editRow_editRow keeps]
    rfl

/-! ## Rows -/

theorem validBody_eq_ok {text : String} {b : Body} (h : validBody text = .ok b) : Body.ofText? text = some b := by
  unfold validBody at h
  split at h
  · cases h
    assumption
  · cases h

/-- An insertion that does not fail adds one row, with a number and an identifier of its own. -/
theorem insertRow_eq_ok (tidy : db.Tidy) {id body : String} {now : Int}
    (h : db.insertRow table id body now = .ok after) :
    ∃ t b, db.table? table = some t ∧ Body.ofText? body = some b ∧ (∀ r ∈ t.rows, r.id ≠ id)
      ∧ after = db.mapTable table (Table.addRow (db.copied table .insert ⟨t.nextRowid, id, b, now, now, []⟩)) := by
  obtain ⟨t, found, h⟩ := bind_eq_ok.1 h
  rw [tableOf_eq_ok] at found
  obtain ⟨gs, ready, h⟩ := bind_eq_ok.1 h
  obtain ⟨b, valid, h⟩ := bind_eq_ok.1 h
  obtain ⟨_, _, h⟩ := bind_eq_ok.1 h
  refine ⟨t, b, found, validBody_eq_ok valid, ?_⟩
  simp only at h
  split at h
  · cases h
  · rename_i fresh
    refine ⟨fun r mem same => fresh (List.any_eq_true.2 ⟨r, mem, by simpa using same⟩), ?_⟩
    have prepared := prepared_of_ready found ready
    have others : ∀ r ∈ t.rows, r.rowid ≠ t.nextRowid := fun r mem => Int.ne_of_lt (Table.lt_nextRowid mem)
    have found' := found_mapTable (Table.addRow_name ⟨t.nextRowid, id, b, now, now, []⟩) found
    rw [foldlM_after_eq_ok (tidy.addRow found others) prepared.on found' h, editRow,
      mapTable_mapTable (Table.addRow_name _)]
    refine tidy.mapTable_congr_of_eq found ?_
    exact (Table.editRow_addRow others _).trans (by rw [prepared.copies])

/-- Putting a new state of a row in its place writes it with what the triggers copy. -/
theorem updateRow_eq_ok (tidy : db.Tidy) {gs : List Trigger} (found : db.table? table = some t)
    (prepared : db.Prepared table .bodyUpdate gs) {old new : Row} (h : updateRow gs table db (old, new) = .ok after) :
    after = db.editRow table new.rowid fun _ => db.copied table .bodyUpdate new := by
  obtain ⟨_, _, h⟩ := bind_eq_ok.1 h
  have keeps : ∀ r : Row, r.rowid = new.rowid → ((fun _ => new) r : Row).rowid = new.rowid := fun _ _ => rfl
  have found' := found_mapTable (Table.editRow_name new.rowid fun _ => new) found
  rw [foldlM_after_eq_ok (tidy.editRow keeps) prepared.on found' h]
  exact (editRow_editRow keeps _).trans (by rw [← prepared.copies]; rfl)

/-- New states for rows of a table: at most one for each row, of its number and identifier and with its promoted
columns. -/
structure Rewrites (t : Table) (cs : List (Row × Row)) : Prop where
  rows : (cs.map Prod.fst).Sublist t.rows
  rowid : ∀ c ∈ cs, c.2.rowid = c.1.rowid
  id : ∀ c ∈ cs, c.2.id = c.1.id
  promoted : ∀ c ∈ cs, c.2.promoted = c.1.promoted

theorem Rewrites.tail {c : Row × Row} {rest : List (Row × Row)} (rewrites : Rewrites t (c :: rest))
    (nodup : (t.rows.map Row.rowid).Nodup) (f : Row → Row) : Rewrites (t.editRow c.2.rowid f) rest := by
  refine ⟨?_, fun d mem => rewrites.rowid d (List.mem_cons_of_mem _ mem),
    fun d mem => rewrites.id d (List.mem_cons_of_mem _ mem), fun d mem => rewrites.promoted d (List.mem_cons_of_mem _ mem)⟩
  have distinct := (rewrites.rows.map Row.rowid).nodup nodup
  rw [List.map_cons, List.map_cons, List.nodup_cons] at distinct
  have others : (rest.map Prod.fst).map (fun r => if r.rowid = c.2.rowid then f r else r) = rest.map Prod.fst := by
    refine (List.map_congr_left fun r mem => if_neg fun same => distinct.1 ?_).trans (List.map_id _)
    rw [← rewrites.rowid c List.mem_cons_self, ← same]
    exact List.mem_map_of_mem mem
  rw [← others]
  exact ((List.sublist_cons_self _ _).trans rewrites.rows).map _

end Database

end Dossier
