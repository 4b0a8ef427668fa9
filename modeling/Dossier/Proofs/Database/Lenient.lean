import Dossier.Proofs.Database.Sound

/-!
# Databases in which writes do not fail

In a `Database.Lenient` database no check and no unique index stands against a write. The lemmas here say what
`insertRow` and `updateRows` give in it, failures included: an insertion fails on a text that is no JSON and on an
identifier that is taken, an update only where its new rows cannot be made.
-/

namespace Dossier

open Text Outcome

namespace Database

/-- Sound, with no triggers but copies and no unique index. -/
structure Lenient (db : Database) : Prop where
  sound : db.Sound
  copies : ∀ g ∈ db.triggers, ∃ path column, g.action = .copy path column
  unkeyed : ∀ i ∈ db.indexes, i.unique = false

variable {db after : Database} {table : String} {t : Table}

namespace Lenient

theorem setColumn (lenient : db.Lenient) (found : db.table? table = some t) (rowid : Int) (column : String) (v : Value) :
    db.setColumn table rowid column v = .ok (db.editRow table rowid (·.setPromoted column v)) := by
  have free : ∀ i ∈ db.indexesOn t.name, i.unique = true → ∀ c ∈ i.columns, sameName column c = false := by
    intro i mem unique
    rw [lenient.unkeyed i (List.mem_filter.1 mem).1] at unique
    cases unique
  obtain ⟨after, made⟩ := lenient.sound.exists_setColumn found rowid free v
  obtain ⟨_, _, rfl, _⟩ := setColumn_eq_ok lenient.sound.tidy made
  exact made

/-- A change of one row that is sound leaves the database lenient. -/
theorem editRow {rowid : Int} {f : Row → Row} (lenient : db.Lenient) (sound : (db.editRow table rowid f).Sound) :
    (db.editRow table rowid f).Lenient := ⟨sound, lenient.copies, lenient.unkeyed⟩

/-- The triggers that are ready are those that wait. -/
theorem ready (lenient : db.Lenient) (t : Table) (change : RowChange) :
    db.ready t change = .ok (db.awaiting t.name change) := by
  have each : ∀ gs : List Trigger, (∀ g ∈ gs, g ∈ db.triggers) → gs.mapM (Trigger.prepare t) = .ok gs := by
    intro gs
    induction gs with
    | nil => exact fun _ => rfl
    | cons g rest ih =>
      intro mem
      obtain ⟨path, column, action⟩ := lenient.copies g (mem g List.mem_cons_self)
      have first : Trigger.prepare t g = .ok g := by simp [Trigger.prepare, action]
      rw [List.mapM_cons, first, ok_bind, ih fun g hg => mem g (List.mem_cons_of_mem _ hg)]
      rfl
  exact each _ fun g mem => (mem_awaiting.1 mem).1

/-- Triggers that copy do nothing before a change. -/
theorem before (lenient : db.Lenient) (read : Place → Value) (t : Table) (change : RowChange) :
    (db.awaiting t.name change).forM (Trigger.before read) = .ok () := by
  have each : ∀ gs : List Trigger, (∀ g ∈ gs, g ∈ db.triggers) → gs.forM (Trigger.before read) = .ok () := by
    intro gs
    induction gs with
    | nil => exact fun _ => rfl
    | cons g rest ih =>
      intro mem
      obtain ⟨path, column, action⟩ := lenient.copies g (mem g List.mem_cons_self)
      have first : Trigger.before read g = .ok () := by simp [Trigger.before, action]
      show (Trigger.before read g >>= fun _ => rest.forM (Trigger.before read)) = .ok ()
      rw [first, ok_bind]
      exact ih fun g hg => mem g (List.mem_cons_of_mem _ hg)
  exact each _ fun g mem => (mem_awaiting.1 mem).1

/-- The triggers that copy do not fail. -/
theorem foldlM_after (lenient : db.Lenient) (row : Row) {gs : List Trigger}
    (on : ∀ g ∈ gs, sameName g.table table = true) (found : db.table? table = some t) :
    gs.foldlM (Database.after row) db
      = .ok (db.editRow table row.rowid fun r => gs.foldl (fun r g => g.copyInto row.data r) r) := by
  have all : ∀ (gs : List Trigger) (mid : Database) (u : Table), mid.Lenient → mid.table? table = some u →
      (∀ g ∈ gs, sameName g.table table = true) → ∃ after, gs.foldlM (Database.after row) mid = .ok after := by
    intro gs
    induction gs with
    | nil => exact fun mid _ _ _ _ => ⟨mid, rfl⟩
    | cons g rest ih =>
      intro mid u lenient found on
      have others := fun g mem => on g (List.mem_cons_of_mem _ mem)
      cases action : g.action with
      | copy path column =>
        have found' : mid.table? g.table = some u := table?_congr (on g List.mem_cons_self) ▸ found
        have made := lenient.setColumn found' row.rowid column (row.data.extract path)
        have next := lenient.editRow (lenient.sound.setColumn made)
        have name : (mid.editRow g.table row.rowid (·.setPromoted column (row.data.extract path))).table? g.table = _ :=
          table?_congr (on g List.mem_cons_self)
        obtain ⟨after, later⟩ := ih _ _ next (name ▸ found_mapTable (Table.editRow_name _ _) found') others
        refine ⟨after, ?_⟩
        rw [List.foldlM_cons, show Database.after row mid g = .ok _ by simp only [Database.after, action]; exact made, ok_bind]
        exact later
      | check | refuse =>
        obtain ⟨after, later⟩ := ih mid u lenient found others
        refine ⟨after, ?_⟩
        rw [List.foldlM_cons, show Database.after row mid g = .ok mid by simp only [Database.after, action], ok_bind]
        exact later
  obtain ⟨after, made⟩ := all gs db t lenient found on
  rw [made, foldlM_after_eq_ok lenient.sound.tidy on found made]

/-! ## Writes -/

theorem insertRow (lenient : db.Lenient) (found : db.table? table = some t) (id body : String) (now : Int) :
    db.insertRow table id body now = (validBody body).bind fun b =>
      if t.rows.any fun r => decide (r.id = id) then
        .error (.constraint ("UNIQUE constraint failed: " ++ t.name ++ ".id"))
      else .ok (db.mapTable table (Table.addRow (db.copied table .insert ⟨t.nextRowid, id, b, now, now, []⟩))) := by
  unfold Database.insertRow
  rw [tableOf_eq_ok.2 found, ok_bind, lenient.ready, ok_bind]
  cases validBody body with
  | error e => rfl
  | ok b =>
    rw [ok_bind]
    simp only [lenient.before, ok_bind]
    rw [show (Except.ok b : Except EngineError Body).bind = fun f => f b from rfl]
    simp only
    split
    · rfl
    · have others : ∀ r ∈ t.rows, r.rowid ≠ t.nextRowid := fun r mem => Int.ne_of_lt (Table.lt_nextRowid mem)
      have tidy : (db.mapTable table (Table.addRow ⟨t.nextRowid, id, b, now, now, []⟩)).Tidy :=
        lenient.sound.tidy.addRow found others
      have added : (db.mapTable table (Table.addRow ⟨t.nextRowid, id, b, now, now, []⟩)).Lenient :=
        ⟨⟨tidy, lenient.sound.thawed, lenient.sound.keyed.addRow lenient.sound.tidy found rfl⟩, lenient.copies,
          lenient.unkeyed⟩
      have prepared := prepared_of_ready found (lenient.ready t .insert)
      have found' := found_mapTable (Table.addRow_name ⟨t.nextRowid, id, b, now, now, []⟩) found
      have ran := added.foldlM_after ⟨t.nextRowid, id, b, now, now, []⟩ prepared.on found'
      refine ran.trans (congrArg Except.ok ?_)
      rw [Database.editRow, mapTable_mapTable (Table.addRow_name _)]
      refine lenient.sound.tidy.mapTable_congr_of_eq found ?_
      exact (Table.editRow_addRow others _).trans (by rw [prepared.copies])

theorem updateRow (lenient : db.Lenient) (found : db.table? table = some t) {gs : List Trigger}
    (waiting : gs = db.awaiting t.name .bodyUpdate) {c : Row × Row} (mem : c.1 ∈ t.rows) (rowid : c.2.rowid = c.1.rowid)
    (promoted : c.2.promoted = c.1.promoted) :
    updateRow gs table db c = .ok (db.editRow table c.2.rowid fun _ => db.copied table .bodyUpdate c.2)
      ∧ (db.editRow table c.2.rowid fun _ => db.copied table .bodyUpdate c.2).Lenient := by
  subst waiting
  have prepared := prepared_of_ready found (lenient.ready t .bodyUpdate)
  have keeps : ∀ r : Row, r.rowid = c.2.rowid → ((fun _ => c.2) r : Row).rowid = c.2.rowid := fun _ _ => rfl
  have written : (db.putRow table c.2).Lenient := by
    refine lenient.editRow ⟨lenient.sound.tidy.editRow keeps, lenient.sound.thawed,
      lenient.sound.keyed.editRow_of_promoted lenient.sound.tidy found keeps fun r hr same => ?_⟩
    rw [lenient.sound.tidy.row_eq found hr mem (same.trans rowid), promoted]
  have found' : (db.putRow table c.2).table? table = some _ := found_mapTable (Table.editRow_name c.2.rowid fun _ => c.2) found
  have ran : Database.updateRow (db.awaiting t.name .bodyUpdate) table db c
      = .ok (db.editRow table c.2.rowid fun _ => db.copied table .bodyUpdate c.2) := by
    obtain ⟨old, new⟩ := c
    simp only [Database.updateRow, lenient.before, ok_bind]
    refine (written.foldlM_after _ prepared.on found').trans (congrArg Except.ok ?_)
    exact (editRow_editRow keeps _).trans (by rw [← prepared.copies]; rfl)
  exact ⟨ran, lenient.editRow (lenient.sound.updateRow found mem rowid promoted ran)⟩

theorem foldlM_updateRow (lenient : db.Lenient) (found : db.table? table = some t) {gs : List Trigger}
    (waiting : gs = db.awaiting t.name .bodyUpdate) {cs : List (Row × Row)} (rewrites : Rewrites t cs) :
    cs.foldlM (Database.updateRow gs table) db = .ok (db.rewritten table cs) := by
  have all : ∀ (cs : List (Row × Row)) (mid : Database) (u : Table), mid.Lenient → mid.table? table = some u →
      gs = mid.awaiting u.name .bodyUpdate → Rewrites u cs →
      ∃ after, cs.foldlM (Database.updateRow gs table) mid = .ok after := by
    intro cs
    induction cs with
    | nil => exact fun mid _ _ _ _ _ => ⟨mid, rfl⟩
    | cons c rest ih =>
      intro mid u lenient found waiting rewrites
      obtain ⟨ran, next⟩ := lenient.updateRow found waiting (rewrites.rows.subset List.mem_cons_self)
        (rewrites.rowid c List.mem_cons_self) (rewrites.promoted c List.mem_cons_self)
      have found' := found_mapTable (Table.editRow_name c.2.rowid fun _ => mid.copied table .bodyUpdate c.2) found
      have rest' := rewrites.tail (lenient.sound.tidy.rowids u (mem_of_table? found).1) fun _ =>
        mid.copied table .bodyUpdate c.2
      obtain ⟨after, later⟩ := ih _ _ next found' waiting rest'
      exact ⟨after, by rw [List.foldlM_cons, ran, ok_bind]; exact later⟩
  obtain ⟨after, made⟩ := all cs db t lenient found waiting rewrites
  have prepared := prepared_of_ready found (lenient.ready t .bodyUpdate)
  obtain ⟨-, eq⟩ := foldlM_updateRow_eq_ok lenient.sound found (waiting ▸ prepared) rewrites made
  rw [made, eq]

/-- An update does what its changes say. -/
theorem updateRows (lenient : db.Lenient) (found : db.table? table = some t)
    {changes : Table → Except EngineError (List (Row × Row))} (rewrites : ∀ cs, changes t = .ok cs → Rewrites t cs) :
    db.updateRows table changes = (changes t).map fun cs => (cs.length, db.rewritten table cs) := by
  unfold Database.updateRows
  rw [tableOf_eq_ok.2 found, ok_bind, lenient.ready, ok_bind]
  cases made : changes t with
  | error e => rfl
  | ok cs =>
    rw [ok_bind, lenient.foldlM_updateRow found rfl (rewrites cs made)]
    rfl

end Lenient

end Database

end Dossier
