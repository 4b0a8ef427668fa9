import Dossier.Proofs.Database.Columned

/-!
# Twin databases

`Database.Twins`: two databases hold the same documents of a collection in the same order, each with promoted paths of
its own. Statements that ask the same of both answer alike and leave twins, whatever is promoted.
-/

namespace Dossier

open Text Outcome

namespace Database

open Row Table

variable {db db' after after' : Database} {name : CollectionName} {timed : Prop} {resolver resolver' : Resolver}

/-- The collection has the same documents in both databases, in the same order. -/
structure Twins (name : CollectionName) (timed : Prop) (resolver resolver' : Resolver) (db db' : Database) : Prop where
  left : db.Columned name resolver
  right : db'.Columned name resolver'
  tables : ∃ t t', db.table? name.text = some t ∧ db'.table? name.text = some t' ∧ t.name = t'.name
    ∧ RowTwins timed t t' ∧ (t.rows.map Row.id).Nodup

namespace Twins

/-- The tables of twins, their rows alike. -/
theorem exists_tables (h : Twins name timed resolver resolver' db db') : ∃ t t', db.tableOf name.text = .ok t
    ∧ db'.tableOf name.text = .ok t' ∧ AllAlike timed resolver resolver' t.rows t'.rows := by
  obtain ⟨t, t', found, found', -, rows, -⟩ := h.tables
  refine ⟨t, t', tableOf_eq_ok.2 found, tableOf_eq_ok.2 found', ?_⟩
  have left := h.left.mirrored found
  have right := h.right.mirrored found'
  refine List.forall₂_iff_zip.2 ⟨rows.length_eq, fun {r r'} mem => ⟨List.forall₂_zip rows mem, ?_, ?_⟩⟩
  · exact left r (List.of_mem_zip mem).1
  · exact right r' (List.of_mem_zip mem).2

/-! ## Statements that read -/

section
variable {f : Filter} (h : Twins name timed resolver resolver' db db') (apt : timed ∨ f.Timeless)

include h apt

theorem find {l : Listing} (aptly : timed ∨ l.Timeless) (fits : (f.predicate resolver).Fits)
    (fits' : (f.predicate resolver').Fits) :
    Agree (AllAlike timed resolver resolver') ((db.run name resolver (.find (f.predicate resolver) l)).map (·.1))
      ((db'.run name resolver' (.find (f.predicate resolver') l)).map (·.1)) := by
  obtain ⟨t, t', found, found', rows⟩ := h.exists_tables
  rw [run_of_fits (fits.find l), run_of_fits (fits'.find l)]
  simp only [answer, found, found', ok_bind]
  refine Agree.map (ρ := fun p p' => AllAlike timed resolver resolver' p.1 p'.1) ?_ fun _ _ => id
  exact ((rows.select apt).apply aptly).bind fun _ _ same => same

theorem fetch (cardinality : Cardinality) (fits : (f.predicate resolver).Fits)
    (fits' : (f.predicate resolver').Fits) :
    Agree (AllAlike timed resolver resolver') ((db.run name resolver (.fetch (f.predicate resolver) cardinality)).map (·.1))
      ((db'.run name resolver' (.fetch (f.predicate resolver') cardinality)).map (·.1)) := by
  obtain ⟨t, t', found, found', rows⟩ := h.exists_tables
  rw [run_of_fits (fits.fetch cardinality), run_of_fits (fits'.fetch cardinality)]
  simp only [answer, found, found', ok_bind]
  exact allAlike_targets rows apt cardinality

theorem count (fits : (f.predicate resolver).Fits) (fits' : (f.predicate resolver').Fits) :
    (db.run name resolver (.count (f.predicate resolver))).map (·.1)
    = (db'.run name resolver' (.count (f.predicate resolver'))).map (·.1) := by
  obtain ⟨t, t', found, found', rows⟩ := h.exists_tables
  rw [run_of_fits fits, run_of_fits fits']
  simp only [answer, found, found', ok_bind]
  exact congrArg (fun n : Nat => Except.ok (n : Int)) (rows.select apt).length_eq

theorem countTargets (cardinality : Cardinality) (fits : (Statement.delete (f.predicate resolver) cardinality).Fits)
    (fits' : (Statement.delete (f.predicate resolver') cardinality).Fits) :
    (db.run name resolver (.countTargets (f.predicate resolver) cardinality)).map (·.1)
      = (db'.run name resolver' (.countTargets (f.predicate resolver') cardinality)).map (·.1) := by
  obtain ⟨t, t', found, found', rows⟩ := h.exists_tables
  rw [run_of_fits fits.countTargets, run_of_fits fits'.countTargets]
  simp only [answer, found, found', ok_bind]
  exact congrArg (fun n : Nat => Except.ok (n : Int)) (allAlike_targets rows apt cardinality).length_eq

theorem guard (guards : List Guard) (cardinality : Cardinality)
    (fits : (Statement.guard guards (f.predicate resolver) cardinality).Fits)
    (fits' : (Statement.guard guards (f.predicate resolver') cardinality).Fits) :
    (db.run name resolver (.guard guards (f.predicate resolver) cardinality)).map (·.1)
      = (db'.run name resolver' (.guard guards (f.predicate resolver') cardinality)).map (·.1) := by
  obtain ⟨t, t', found, found', rows⟩ := h.exists_tables
  rw [run_of_fits fits, run_of_fits fits']
  simp only [answer, found, found', ok_bind]
  exact congrArg Except.ok (guardCode_congr guards (allAlike_targets rows apt cardinality))

end

/-! ## Statements that write -/

/-- Answers of statements that write: one count, and twins. -/
abbrev Answers (name : CollectionName) (timed : Prop) (resolver resolver' : Resolver) (p p' : Nat × Database) : Prop :=
  p.1 = p'.1 ∧ Twins name timed resolver resolver' p.2 p'.2

theorem insert (h : Twins name timed resolver resolver' db db') (id text : String) {now now' : Int} (times : timed → now = now') :
    Agree (Answers name timed resolver resolver') (db.run name resolver (.insert id text now))
      (db'.run name resolver' (.insert id text now')) := by
  obtain ⟨t, t', found, found', names, rows, ids⟩ := h.tables
  have ran := h.left.lenient.insertRow found id text now
  have ran' := h.right.lenient.insertRow found' id text now'
  simp only [run_of_fits (Statement.fits_insert _ _ _), answer]
  cases valid : validBody text with
  | error e =>
    rw [valid] at ran ran'
    rw [ran, ran']
    rfl
  | ok b =>
    rw [valid] at ran ran'
    have taken := rows.any_id id
    cases used : t.rows.any fun r => decide (r.id = id) with
    | true =>
      rw [used] at taken
      simp only [Except.bind, used, ← taken, if_true] at ran ran'
      rw [ran, ran', names]
      rfl
    | false =>
      rw [used] at taken
      simp only [Except.bind, used, ← taken, Bool.false_eq_true, if_false] at ran ran'
      have wrote := run_eq_ok h.left.lenient.sound
        (show db.run name resolver (.insert id text now) = .ok (1, _) by rw [run_of_fits (Statement.fits_insert _ _ _), answer, ran]; rfl)
      have wrote' := run_eq_ok h.right.lenient.sound
        (show db'.run name resolver' (.insert id text now') = .ok (1, _) by rw [run_of_fits (Statement.fits_insert _ _ _), answer, ran']; rfl)
      rw [ran, ran']
      refine ⟨rfl, h.left.wrote wrote.1 wrote.2, h.right.wrote wrote'.1 wrote'.2, _, _,
        found_mapTable (Table.addRow_name _) found, found_mapTable (Table.addRow_name _) found', names, rows.addRow ?_, ?_⟩
      · refine (twin_copied _ _ _ _ _).trans (Twin.trans ?_ (twin_copied _ _ _ _ _).symm)
        exact ⟨rows.nextRowid, rfl, rfl, fun at_ => ⟨times at_, times at_⟩⟩
      · have fresh : ∀ r ∈ t.rows, r.id ≠ id := by simpa using used
        simp only [Table.addRow, List.map_append, List.map_cons, List.map_nil, (twin_copied True _ _ _ _).id]
        refine List.nodup_append.2 ⟨ids, by simp, ?_⟩
        rintro _ old new mem rfl
        obtain ⟨r, mem', rfl⟩ := List.mem_map.1 old
        exact fresh r mem' (List.mem_singleton.1 mem)

/-- New states that are twins make twins. -/
theorem updateRows (h : Twins name timed resolver resolver' db db')
    {changes changes' : Table → Except EngineError (List (Row × Row))} (rewrites : ∀ t cs, changes t = .ok cs → Rewrites t cs)
    (rewrites' : ∀ t cs, changes' t = .ok cs → Rewrites t cs)
    (new : ∀ t t' : Table, AllAlike timed resolver resolver' t.rows t'.rows →
      Agree (List.Forall₂ fun c c' : Row × Row => c.2.Twin timed c'.2) (changes t) (changes' t')) :
    Agree (Answers name timed resolver resolver') (db.updateRows name.text changes) (db'.updateRows name.text changes') := by
  obtain ⟨t, t', read, read', alike⟩ := h.exists_tables
  obtain ⟨u, u', found, found', names, rows, ids⟩ := h.tables
  cases read.symm.trans (tableOf_eq_ok.2 found)
  cases read'.symm.trans (tableOf_eq_ok.2 found')
  have ran := h.left.lenient.updateRows found (rewrites t)
  have ran' := h.right.lenient.updateRows found' (rewrites' t')
  have made := new t t' alike
  rw [ran, ran']
  cases one : changes t with
  | error e =>
    cases other : changes' t' with
    | error e' => rw [one, other] at made; exact made
    | ok cs' => rw [one, other] at made; exact made.elim
  | ok cs =>
    cases other : changes' t' with
    | error e' => rw [one, other] at made; exact made.elim
    | ok cs' =>
      rw [one, other] at made
      rw [one] at ran
      rw [other] at ran'
      obtain ⟨sound, _⟩ := updateRows_eq_ok h.left.lenient.sound rewrites ran
      obtain ⟨sound', _⟩ := updateRows_eq_ok h.right.lenient.sound rewrites' ran'
      refine ⟨made.length_eq, h.left.wrote sound (.rewritten cs), h.right.wrote sound' (.rewritten cs'), ?_⟩
      simp only [rewritten_eq]
      refine ⟨_, _, found_mapTable (Table.rewrite_name _ cs) found, found_mapTable (Table.rewrite_name _ cs') found', ?_,
        ?_, ?_⟩
      · simpa using names
      · exact rows.rewrite (twin_copied timed db _ _) (twin_copied timed db' _ _) made
      · have nodup := h.left.lenient.sound.tidy.rowids t (mem_of_table? found).1
        rw [Table.ids_rewrite (fun r => ?_) (rewrites t cs one) nodup]
        · exact ids
        · exact ⟨copied_rowid _ _ _ _, (twin_copied True _ _ _ _).id⟩

theorem withBody_twin {r r' : Row} (twin : r.Twin timed r') (text : String) {now now' : Int} (times : timed → now = now') :
    Agree (Twin timed) (r.withBody text now) (r'.withBody text now') := by
  unfold Row.withBody
  refine (Agree.refl (Database.validBody text)).bind ?_
  rintro b _ rfl
  exact ⟨twin.rowid, twin.id, rfl, fun at_ => ⟨(twin.times at_).1, times at_⟩⟩

theorem overwrite (h : Twins name timed resolver resolver' db db') (id text : String) {now now' : Int}
    (times : timed → now = now') : Agree (Answers name timed resolver resolver')
      (db.run name resolver (.overwrite id text now)) (db'.run name resolver' (.overwrite id text now')) := by
  have rewrites : ∀ (now : Int) (t : Table) cs, ((t.rows.filter fun row => row.id = id).mapM fun row => do
      return (row, ← row.withBody text now)) = .ok cs → Rewrites t cs := fun now t cs made =>
    rewrites_of_mapM List.filter_sublist (fun r s state => by
      obtain ⟨b, -, rfl⟩ := withBody_eq_ok state
      exact ⟨rfl, rfl, rfl⟩) made
  rw [run_of_fits (Statement.fits_overwrite _ _ _), run_of_fits (Statement.fits_overwrite _ _ _)]
  refine h.updateRows (rewrites now) (rewrites now') fun t t' rows => ?_
  have named : AllAlike timed resolver resolver' (t.rows.filter fun row => row.id = id) (t'.rows.filter fun row => row.id = id) :=
    rows.filter fun r r' alike => by rw [alike.twin.id]
  exact Agree.mapM named fun r r' alike => (withBody_twin alike.twin text times).bind fun _ _ twin => twin

theorem edits_twin (changes : Changes) {rows rows' : List Row} (h : AllAlike timed resolver resolver' rows rows')
    {now now' : Int} (times : timed → now = now') :
    Agree (List.Forall₂ fun c c' : Row × Row => c.2.Twin timed c'.2) (edits changes now rows) (edits changes now' rows') := by
  unfold edits
  induction h with
  | nil => exact .nil
  | cons first _ ih =>
    rw [List.foldrM_cons, List.foldrM_cons]
    refine ih.bind fun cs cs' new => ?_
    simp only [first.twin.data]
    split
    · exact new
    · exact (withBody_twin first.twin _ times).bind fun _ _ twin => .cons twin new

theorem change (h : Twins name timed resolver resolver' db db') {f : Filter} (apt : timed ∨ f.Timeless) (changes : Changes)
    (cardinality : Cardinality) {now now' : Int} (times : timed → now = now')
    (fits : (Statement.change changes (f.predicate resolver) cardinality now).Fits)
    (fits' : (Statement.change changes (f.predicate resolver') cardinality now').Fits) :
    Agree (Answers name timed resolver resolver')
      (db.run name resolver (.change changes (f.predicate resolver) cardinality now))
      (db'.run name resolver' (.change changes (f.predicate resolver') cardinality now')) := by
  have rewrites : ∀ (now : Int) (p : Predicate) (t : Table) cs, edits changes now (t.targets p cardinality) = .ok cs →
      Rewrites t cs := fun now p t cs made => rewrites_of_edits (targets_sublist t p cardinality) made
  rw [run_of_fits fits, run_of_fits fits']
  refine h.updateRows (rewrites now _) (rewrites now' _) fun t t' rows => ?_
  exact edits_twin changes (allAlike_targets rows apt cardinality) times

theorem delete (h : Twins name timed resolver resolver' db db') {f : Filter} (apt : timed ∨ f.Timeless)
    (cardinality : Cardinality) (fits : (Statement.delete (f.predicate resolver) cardinality).Fits)
    (fits' : (Statement.delete (f.predicate resolver') cardinality).Fits) : Agree (Answers name timed resolver resolver')
      (db.run name resolver (.delete (f.predicate resolver) cardinality))
      (db'.run name resolver' (.delete (f.predicate resolver') cardinality)) := by
  obtain ⟨t, t', read, read', alike⟩ := h.exists_tables
  obtain ⟨u, u', found, found', names, rows, ids⟩ := h.tables
  cases read.symm.trans (tableOf_eq_ok.2 found)
  cases read'.symm.trans (tableOf_eq_ok.2 found')
  have chosen := allAlike_targets alike apt cardinality
  have rowids : (t.targets (f.predicate resolver) cardinality).map Row.rowid
      = (t'.targets (f.predicate resolver') cardinality).map Row.rowid := by
    rw [← List.forall₂_eq_eq_eq, List.forall₂_map_left_iff, List.forall₂_map_right_iff]
    exact chosen.imp fun _ _ alike => alike.twin.rowid
  rw [run_of_fits fits, run_of_fits fits']
  simp only [answer, read, read', ok_bind]
  refine ⟨chosen.length_eq, ?_⟩
  rw [← rowids]
  generalize (t.targets (f.predicate resolver) cardinality).map Row.rowid = gone
  have taken : db.Wrote name.text (db.deleteRows name.text gone) := .deleted gone
  have taken' : db'.Wrote name.text (db'.deleteRows name.text gone) := .deleted gone
  refine ⟨h.left.wrote (h.left.lenient.sound.deleteRows _ _) taken, h.right.wrote (h.right.lenient.sound.deleteRows _ _) taken',
    _, _, found_mapTable (fun _ => rfl) found, found_mapTable (fun _ => rfl) found', names, rows.deleteRows gone, ?_⟩
  exact (List.filter_sublist.map _).nodup ids

/-! ## Promotions -/

/-- A promotion of one of two twins leaves them twins. -/
theorem promote (h : Twins name timed resolver resolver' db db') {path : FieldPath} (admits : db'.Admits name path)
    (made : db'.promote name path false time = .ok after') :
    Twins name timed resolver (after'.resolver name.text) db after' := by
  obtain ⟨t, t', found, found', names, rows, ids⟩ := h.tables
  obtain ⟨⟨f, same, twins, tables⟩, -, -, -⟩ := promote_eq_ok h.right.mirroring admits.target made
  refine ⟨h.left, (h.right.promote admits made).1, t, f t', found, ?_, names.trans (same t').symm, ?_, ids⟩
  · rw [table?, tables]
    exact found_mapTable same found'
  · refine rows.trans ?_
    exact (twins timed t').flip.imp fun _ _ twin => twin.symm

end Twins

/-! ## Before the first call -/

/-- Twins once the table of the collection is made, where it is missing. -/
def Twinned (name : CollectionName) (timed : Prop) (resolver resolver' : Resolver) (db db' : Database) : Prop :=
  ∃ d d', db.createTable name = .ok d ∧ db'.createTable name = .ok d' ∧ Twins name timed resolver resolver' d d'

theorem createTable_of_table? {t : Table} (found : db.table? name.text = some t) : db.createTable name = .ok db := by
  simp [createTable, found]

theorem Twins.twinned (h : Twins name timed resolver resolver' db db') : Twinned name timed resolver resolver' db db' := by
  obtain ⟨_, _, found, found', _⟩ := h.tables
  exact ⟨db, db', createTable_of_table? found, createTable_of_table? found', h⟩

theorem twinned_empty (name : CollectionName) (timed : Prop) : Twinned name timed ⟨[]⟩ ⟨[]⟩ empty empty := by
  have made : empty.createTable name = .ok { empty with tables := [⟨name.text, [], []⟩] } := rfl
  have columned := (columned_empty name).createTable made
  have found : table? { empty with tables := [⟨name.text, [], []⟩] } name.text = some ⟨name.text, [], []⟩ := by
    simp [table?, sameName_refl]
  exact ⟨_, _, made, made, columned, columned, _, _, found, found, rfl, .nil, List.nodup_nil⟩

end Database

end Dossier
