import Dossier.Collection.Basic
import Dossier.Proofs.Database.Fitting
import Dossier.Proofs.Database.Keys

/-!
# What statements do to a sound database

A `Database.Sound` database is tidy, no trigger stands against updates, and its unique indexes separate the
rows. Statements keep it sound, and the lemmas here give the database after each of them in closed form.
-/

namespace Dossier

open Text Outcome

namespace Database

/-- Tidy tables, no trigger against updates, and unique indexes that separate the rows. -/
structure Sound (db : Database) : Prop where
  tidy : db.Tidy
  thawed : db.Thawed
  keyed : db.Keyed

variable {db after : Database} {table : String} {t : Table}

namespace Sound

theorem setColumn {rowid : Int} {column : String} {v : Value} (sound : db.Sound)
    (h : db.setColumn table rowid column v = .ok after) : after.Sound := by
  have keyed := sound.keyed.setColumn sound.tidy h
  obtain ⟨t, found, rfl, -⟩ := setColumn_eq_ok sound.tidy h
  exact ⟨sound.tidy.editRow fun r same => same, sound.thawed, keyed⟩

theorem foldlM_after {row : Row} {gs : List Trigger} (sound : db.Sound)
    (h : gs.foldlM (Database.after row) db = .ok after) : after.Sound := by
  induction gs generalizing db with
  | nil => cases h; exact sound
  | cons g rest ih =>
    rw [List.foldlM_cons] at h
    obtain ⟨mid, first, h⟩ := bind_eq_ok.1 h
    refine ih ?_ h
    unfold Database.after at first
    split at first
    · exact sound.setColumn first
    · cases first
      exact sound

end Sound

/-! ## Inserting and deleting -/

theorem Sound.insertRow {id body : String} {now : Int} (sound : db.Sound)
    (h : db.insertRow table id body now = .ok after) : after.Sound := by
  obtain ⟨t, found, h⟩ := bind_eq_ok.1 h
  rw [tableOf_eq_ok] at found
  obtain ⟨gs, ready, h⟩ := bind_eq_ok.1 h
  obtain ⟨b, valid, h⟩ := bind_eq_ok.1 h
  obtain ⟨_, _, h⟩ := bind_eq_ok.1 h
  simp only at h
  split at h
  · cases h
  · have fresh : ∀ r ∈ t.rows, r.rowid ≠ t.nextRowid := fun r mem => Int.ne_of_lt (Table.lt_nextRowid mem)
    refine Sound.foldlM_after ?_ h
    have tidy : (db.mapTable table (Table.addRow ⟨t.nextRowid, id, b, now, now, []⟩)).Tidy := sound.tidy.addRow found fresh
    exact ⟨tidy, sound.thawed, sound.keyed.addRow sound.tidy found rfl⟩

theorem Sound.deleteRows (sound : db.Sound) (table : String) (rowids : List Int) : (db.deleteRows table rowids).Sound :=
  ⟨sound.tidy.mapTable (fun _ => rfl) fun t mem _ => (List.filter_sublist.map _).nodup (sound.tidy.rowids t mem),
    sound.thawed, sound.keyed.deleteRows table rowids⟩

/-! ## Updating -/

/-- One row gets its new state. -/
theorem Sound.updateRow {gs : List Trigger} {c : Row × Row} (sound : db.Sound) (found : db.table? table = some t)
    (mem : c.1 ∈ t.rows) (rowid : c.2.rowid = c.1.rowid) (promoted : c.2.promoted = c.1.promoted)
    (h : updateRow gs table db c = .ok after) : after.Sound := by
  obtain ⟨_, _, h⟩ := bind_eq_ok.1 h
  refine Sound.foldlM_after ?_ h
  have keeps : ∀ r : Row, r.rowid = c.2.rowid → ((fun _ => c.2) r : Row).rowid = c.2.rowid := fun _ _ => rfl
  refine ⟨sound.tidy.editRow keeps, sound.thawed, sound.keyed.editRow_of_promoted sound.tidy found keeps ?_⟩
  intro r hr same
  rw [sound.tidy.row_eq found hr mem (same.trans rowid), promoted]

/-- The database after rows have got new states, one after another. -/
def rewritten (db : Database) (table : String) (cs : List (Row × Row)) : Database :=
  cs.foldl (fun mid c => mid.editRow table c.2.rowid fun _ => db.copied table .bodyUpdate c.2) db

theorem rewritten_eq (db : Database) (table : String) (cs : List (Row × Row)) :
    db.rewritten table cs = db.mapTable table (Table.rewrite (db.copied table .bodyUpdate) cs) := by
  have all : ∀ (cs : List (Row × Row)) (f : Table → Table), (∀ t, (f t).name = t.name) →
      cs.foldl (fun mid c => mid.editRow table c.2.rowid fun _ => db.copied table .bodyUpdate c.2) (db.mapTable table f)
        = db.mapTable table (Table.rewrite (db.copied table .bodyUpdate) cs ∘ f) := by
    intro cs
    induction cs with
    | nil => exact fun f _ => rfl
    | cons c rest ih =>
      intro f name
      rw [List.foldl_cons, editRow, mapTable_mapTable name]
      exact ih _ name
  have same : db.mapTable table id = db := by simp [mapTable]
  have folded := all cs id fun _ => rfl
  rw [same] at folded
  exact folded

theorem foldlM_updateRow_eq_ok {gs : List Trigger} {cs : List (Row × Row)} (sound : db.Sound)
    (found : db.table? table = some t) (prepared : db.Prepared table .bodyUpdate gs) (rewrites : Rewrites t cs)
    (h : cs.foldlM (updateRow gs table) db = .ok after) : after.Sound ∧ after = db.rewritten table cs := by
  induction cs generalizing db t with
  | nil => cases h; exact ⟨sound, rfl⟩
  | cons c rest ih =>
    rw [List.foldlM_cons] at h
    obtain ⟨mid, first, h⟩ := bind_eq_ok.1 h
    have mem : c.1 ∈ t.rows := rewrites.rows.subset List.mem_cons_self
    have next := sound.updateRow found mem (rewrites.rowid c List.mem_cons_self)
      (rewrites.promoted c List.mem_cons_self) first
    obtain rfl := updateRow_eq_ok sound.tidy found prepared first
    have found' := found_mapTable (Table.editRow_name c.2.rowid fun _ => db.copied table .bodyUpdate c.2) found
    have prepared' : (db.editRow table c.2.rowid fun _ => db.copied table .bodyUpdate c.2).Prepared table .bodyUpdate gs :=
      ⟨prepared.on, prepared.copies⟩
    exact ih next found' prepared' (rewrites.tail (sound.tidy.rowids t (mem_of_table? found).1) _) h

/-- An update that does not fail gives new states to rows. -/
theorem updateRows_eq_ok {n : Nat} {changes : Table → Except EngineError (List (Row × Row))} (sound : db.Sound)
    (rewrites : ∀ t cs, changes t = .ok cs → Rewrites t cs) (h : db.updateRows table changes = .ok (n, after)) :
    after.Sound ∧ ∃ t cs, db.table? table = some t ∧ changes t = .ok cs ∧ n = cs.length ∧ after = db.rewritten table cs := by
  obtain ⟨t, found, h⟩ := bind_eq_ok.1 h
  rw [tableOf_eq_ok] at found
  obtain ⟨gs, ready, h⟩ := bind_eq_ok.1 h
  obtain ⟨cs, made, h⟩ := bind_eq_ok.1 h
  obtain ⟨last, folded, h⟩ := bind_eq_ok.1 h
  cases h
  obtain ⟨sound', eq⟩ := foldlM_updateRow_eq_ok sound found (prepared_of_ready found ready) (rewrites t cs made) folded
  exact ⟨sound', t, cs, found, made, rfl, eq⟩

/-! ### The changes of statements -/

theorem withBody_eq_ok {r s : Row} {text : String} {now : Int} (h : r.withBody text now = .ok s) :
    ∃ b, Body.ofText? text = some b ∧ s = { r with data := b, updatedAt := now } := by
  obtain ⟨b, valid, h⟩ := bind_eq_ok.1 h
  cases h
  exact ⟨b, validBody_eq_ok valid, rfl⟩

/-- New states that are made of rows of a table in order. -/
theorem rewrites_of_mapM {t : Table} {rows : List Row} {cs : List (Row × Row)} {f : Row → Except EngineError Row}
    (sub : rows.Sublist t.rows) (keeps : ∀ r s, f r = .ok s → s.rowid = r.rowid ∧ s.id = r.id ∧ s.promoted = r.promoted)
    (h : (rows.mapM fun r => do return (r, ← f r)) = .ok cs) : Rewrites t cs := by
  have each : ∀ r c, (do return (r, ← f r)) = (.ok c : Except EngineError (Row × Row)) → c.1 = r ∧ f r = .ok c.2 := by
    intro r c made
    obtain ⟨s, state, eq⟩ := bind_eq_ok.1 made
    cases eq
    exact ⟨rfl, state⟩
  have firsts : cs.map Prod.fst = rows := (map_of_mapM (h := id) (fun r c made => (each r c made).1) h).trans (List.map_id _)
  have kept : ∀ c ∈ cs, c.2.rowid = c.1.rowid ∧ c.2.id = c.1.id ∧ c.2.promoted = c.1.promoted := by
    intro c mem
    obtain ⟨r, -, made⟩ := exists_of_mapM h mem
    obtain ⟨rfl, state⟩ := each r c made
    exact keeps c.1 c.2 state
  exact ⟨firsts ▸ sub, fun c mem => (kept c mem).1, fun c mem => (kept c mem).2.1, fun c mem => (kept c mem).2.2⟩

/-- The changed rows of an update in place are rows of the table in order. -/
theorem rewrites_of_edits {t : Table} {rows : List Row} {cs : List (Row × Row)} {changes : Changes} {now : Int}
    (sub : rows.Sublist t.rows) (h : edits changes now rows = .ok cs) : Rewrites t cs := by
  have all : ∀ (rows : List Row) cs, edits changes now rows = .ok cs →
      (cs.map Prod.fst).Sublist rows ∧ ∀ c ∈ cs, c.2.rowid = c.1.rowid ∧ c.2.id = c.1.id ∧ c.2.promoted = c.1.promoted := by
    intro rows
    induction rows with
    | nil => rintro cs h; cases h; simp
    | cons r rest ih =>
      intro cs h
      unfold edits at h
      rw [List.foldrM_cons] at h
      obtain ⟨others, later, h⟩ := bind_eq_ok.1 h
      obtain ⟨firsts, kept⟩ := ih others later
      simp only at h
      split at h
      · cases h
        exact ⟨firsts.cons _, kept⟩
      · obtain ⟨s, made, h⟩ := bind_eq_ok.1 h
        cases h
        obtain ⟨b, -, rfl⟩ := withBody_eq_ok made
        exact ⟨firsts.cons_cons _, List.forall_mem_cons.2 ⟨⟨rfl, rfl, rfl⟩, kept⟩⟩
  obtain ⟨firsts, kept⟩ := all rows cs h
  exact ⟨firsts.trans sub, fun c mem => (kept c mem).1, fun c mem => (kept c mem).2.1, fun c mem => (kept c mem).2.2⟩

/-- The rows that get a text as their body are rows of the table in order. -/
theorem rewrites_of_putBody {t : Table} {cs : List (Row × Row)} {id data : String}
    (h : ((t.rows.filter fun r => r.id = id).mapM fun r => do
      return (r, { r with data := ← db.admitBody t r data })) = .ok cs) : Rewrites t cs := by
  have sub : (t.rows.filter fun r => r.id = id).Sublist t.rows := List.filter_sublist
  refine rewrites_of_mapM (f := fun r => do return { r with data := ← db.admitBody t r data }) sub ?_ (by simpa using h)
  intro r s state
  obtain ⟨b, -, eq⟩ := bind_eq_ok.1 state
  cases eq
  exact ⟨rfl, rfl, rfl⟩

theorem targets_sublist (t : Table) (p : Predicate) (cardinality : Cardinality) :
    (t.targets p cardinality).Sublist t.rows := by
  cases cardinality with
  | one => exact (List.take_sublist _ _).trans List.filter_sublist
  | many => exact List.filter_sublist

/-! ## Statements -/

/-- What a statement that writes does to a database: it adds a row, gives rows new states, or takes rows out. -/
inductive Wrote (db : Database) (table : String) : Database → Prop
  | inserted (t : Table) (found : db.table? table = some t) (row : Row) (bare : row.promoted = []) :
    Wrote db table (db.mapTable table (Table.addRow (db.copied table .insert row)))
  | rewritten (cs : List (Row × Row)) : Wrote db table (db.rewritten table cs)
  | deleted (rowids : List Int) : Wrote db table (db.deleteRows table rowids)

theorem run_eq_ok {name : CollectionName} {r : Resolver} {s : Statement .changed} {n : Nat} (sound : db.Sound)
    (h : db.run name r s = .ok (n, after)) : after.Sound ∧ db.Wrote name.text after := by
  replace h := answer_of_run h
  cases s with
  | change changes p cardinality now =>
    obtain ⟨sound', _, cs, _, _, _, rfl⟩ :=
      updateRows_eq_ok sound (fun t cs made => rewrites_of_edits (targets_sublist t p cardinality) made) h
    exact ⟨sound', .rewritten cs⟩
  | overwrite id body now =>
    obtain ⟨sound', _, cs, _, _, _, rfl⟩ :=
      updateRows_eq_ok sound (fun t cs made => rewrites_of_mapM List.filter_sublist (fun r s state => by
        obtain ⟨b, -, rfl⟩ := withBody_eq_ok state
        exact ⟨rfl, rfl, rfl⟩) made) h
    exact ⟨sound', .rewritten cs⟩
  | insert id body now =>
    obtain ⟨last, inserted, h⟩ := bind_eq_ok.1 h
    cases h
    have sound' := sound.insertRow inserted
    obtain ⟨t, b, found, -, -, rfl⟩ := insertRow_eq_ok sound.tidy inserted
    exact ⟨sound', .inserted t found _ rfl⟩
  | delete p cardinality =>
    obtain ⟨t, -, h⟩ := bind_eq_ok.1 h
    cases h
    exact ⟨sound.deleteRows _ _, .deleted _⟩

/-- What writes rows changes the rows of one table. -/
theorem Wrote.eq_mapTable (h : db.Wrote table after) : ∃ f : Table → Table, (∀ t, (f t).name = t.name)
    ∧ (∀ t, (f t).columns = t.columns) ∧ after = db.mapTable table f := by
  cases h with
  | inserted t found row bare => exact ⟨_, Table.addRow_name _, Table.addRow_columns _, rfl⟩
  | rewritten cs => exact ⟨_, Table.rewrite_name _ cs, Table.rewrite_columns _ cs, db.rewritten_eq table cs⟩
  | deleted rowids =>
    exact ⟨fun t => { t with rows := t.rows.filter fun r => !rowids.contains r.rowid }, fun _ => rfl, fun _ => rfl, rfl⟩

theorem Wrote.promotions (h : db.Wrote table after) : after.promotions = db.promotions := by
  obtain ⟨f, -, -, rfl⟩ := h.eq_mapTable
  rfl

/-! ## Filling a column -/

/-- Writing a column that no unique index looks at does not fail. -/
theorem Sound.exists_setColumn (sound : db.Sound) (found : db.table? table = some t) (rowid : Int) {column : String}
    (free : ∀ i ∈ db.indexesOn t.name, i.unique = true → ∀ c ∈ i.columns, sameName column c = false) (v : Value) :
    ∃ after, db.setColumn table rowid column v = .ok after := by
  unfold Database.setColumn
  rw [tableOf_eq_ok.2 found, ok_bind, sound.thawed.ready_columnUpdate, ok_bind]
  split
  · exact ⟨_, rfl⟩
  · rename_i row here
    have mem := List.mem_of_find?_eq_some here
    have fine : db.conflict? t (row.setPromoted column v) = none := by
      refine Option.map_eq_none_iff.2 (List.find?_eq_none.2 fun i hi => ?_)
      simp only [Bool.and_eq_true, not_and, Bool.not_eq_true]
      intro unique
      refine List.any_eq_false.2 fun r hr => ?_
      simp only [Bool.and_eq_true, decide_eq_true_eq, not_and, Bool.not_eq_true]
      intro ne
      have unchanged : i.sameKey r (row.setPromoted column v) = i.sameKey r row := by
        have each : ∀ c ∈ i.columns, (row.setPromoted column v).promotedValue c = row.promotedValue c := fun c hc =>
          Row.promotedValue_setPromoted_of_ne _ _ (free i hi unique c hc)
        unfold Index.sameKey
        rw [Bool.eq_iff_iff, List.all_eq_true, List.all_eq_true]
        exact forall₂_congr fun c hc => by rw [each c hc]
      rw [unchanged]
      exact sound.keyed.separates t (mem_of_table? found).1 i hi unique r hr row mem (by simpa using ne)
    simp only [fine]
    exact ⟨_, rfl⟩

/-- The table when some of its rows have the column written. -/
def partlyFilled (column : String) (path : FieldPath) (done todo : List Row) (u : Table) : Table :=
  { u with rows := done.map (fun r => r.setPromoted column (r.data.extract path)) ++ todo }

/-- Writing the next row of a column. -/
theorem editRow_partlyFilled {column : String} {path : FieldPath} {done rest : List Row} {r : Row}
    (sound : db.Sound) (found : db.table? table = some t) (rows : t.rows = done ++ r :: rest) :
    (db.mapTable table (partlyFilled column path done (r :: rest))).editRow table r.rowid
        (·.setPromoted column (r.data.extract path))
      = db.mapTable table (partlyFilled column path (done ++ [r]) rest) := by
  have nodup := sound.tidy.rowids t (mem_of_table? found).1
  rw [rows, List.map_append, List.map_cons, List.nodup_append] at nodup
  obtain ⟨-, later, before⟩ := nodup
  rw [List.nodup_cons] at later
  have others : ∀ l : List Row, (∀ s ∈ l, s.rowid ≠ r.rowid) →
      l.map (fun s => if s.rowid = r.rowid then s.setPromoted column (r.data.extract path) else s) = l :=
    fun l h => (List.map_congr_left fun s mem => if_neg (h s mem)).trans (List.map_id _)
  have earlier : ∀ s ∈ done.map (fun r => r.setPromoted column (r.data.extract path)), s.rowid ≠ r.rowid := by
    intro s mem
    obtain ⟨s, hs, rfl⟩ := List.mem_map.1 mem
    exact before _ (List.mem_map_of_mem hs) _ List.mem_cons_self
  have last : ∀ s ∈ rest, s.rowid ≠ r.rowid := fun s mem same => later.1 (same ▸ List.mem_map_of_mem mem)
  rw [editRow, mapTable_mapTable fun u => by rfl]
  congr 1
  funext u
  simp only [Function.comp, Table.editRow, partlyFilled, List.map_append, List.map_cons, List.map_nil, others _ earlier,
    others _ last, if_true, List.append_assoc, List.cons_append, List.nil_append]

/-- The writes of a column for the rows that are left, when those before them have theirs. -/
theorem foldlM_fill_eq_ok {column : String} {path : FieldPath} (sound : db.Sound) (found : db.table? table = some t)
    {done todo : List Row} (rows : t.rows = done ++ todo)
    (partly : (db.mapTable table (partlyFilled column path done todo)).Sound)
    (h : todo.foldlM (fun db r => db.setColumn table r.rowid column (r.data.extract path))
      (db.mapTable table (partlyFilled column path done todo)) = .ok after) :
    after.Sound ∧ after = db.mapTable table (Table.fill column path) := by
  induction todo generalizing done with
  | nil =>
    cases h
    refine ⟨partly, sound.tidy.mapTable_congr_of_eq found ?_⟩
    simp only [partlyFilled, Table.fill, rows, List.append_nil]
  | cons r rest ih =>
    rw [List.foldlM_cons] at h
    obtain ⟨mid, first, h⟩ := bind_eq_ok.1 h
    have next := partly.setColumn first
    obtain ⟨_, _, rfl, _⟩ := setColumn_eq_ok partly.tidy first
    rw [editRow_partlyFilled sound found rows] at next h
    exact ih (rows.trans (List.append_cons done r rest)) next h

theorem partlyFilled_nil (sound : db.Sound) (found : db.table? table = some t) (column : String) (path : FieldPath) :
    db.mapTable table (partlyFilled column path [] t.rows) = db :=
  sound.tidy.mapTable_eq_self found rfl

/-- Writing a column of all rows that does not fail writes it from every body. -/
theorem fillColumn_eq_ok {column : String} {path : FieldPath} (sound : db.Sound)
    (h : db.fillColumn table column path = .ok after) :
    after.Sound ∧ after = db.mapTable table (Table.fill column path) := by
  obtain ⟨t, found, h⟩ := bind_eq_ok.1 h
  rw [tableOf_eq_ok] at found
  have start := partlyFilled_nil sound found column path
  rw [← start] at h
  exact foldlM_fill_eq_ok sound found rfl (start.symm ▸ sound) h

/-- Writing a column that no unique index looks at does not fail for any row. -/
theorem exists_fillColumn {column : String} (sound : db.Sound) (found : db.table? table = some t)
    (free : ∀ i ∈ db.indexesOn table, i.unique = true → ∀ c ∈ i.columns, sameName column c = false) (path : FieldPath) :
    ∃ after, db.fillColumn table column path = .ok after := by
  have all : ∀ (todo : List Row) (mid : Database) (u : Table), mid.Sound → mid.table? table = some u →
      mid.indexes = db.indexes →
      ∃ after, todo.foldlM (fun db r => db.setColumn table r.rowid column (r.data.extract path)) mid = .ok after := by
    intro todo
    induction todo with
    | nil => exact fun mid _ _ _ _ => ⟨mid, rfl⟩
    | cons r rest ih =>
      intro mid u sound found same
      have on : mid.indexesOn u.name = db.indexesOn table := by
        rw [indexesOn_congr (mem_of_table? found).2, indexesOn, same, indexesOn]
      obtain ⟨next, made⟩ := sound.exists_setColumn found r.rowid (on ▸ free) (r.data.extract path)
      have sound' := sound.setColumn made
      obtain ⟨_, _, rfl, _⟩ := setColumn_eq_ok sound.tidy made
      have found' := found_mapTable (Table.editRow_name r.rowid (·.setPromoted column (r.data.extract path))) found
      obtain ⟨after, later⟩ := ih _ _ sound' found' same
      exact ⟨after, by rw [List.foldlM_cons, made, ok_bind, later]⟩
  unfold Database.fillColumn
  rw [tableOf_eq_ok.2 found, ok_bind]
  exact all t.rows db t sound found rfl

end Database

end Dossier
