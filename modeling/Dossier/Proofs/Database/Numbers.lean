import Mathlib.Data.List.Nodup
import Dossier.Proofs.Database.Promoting
import Dossier.Proofs.Session.Script

/-!
# Numbers and identifiers of rows

In every table the numbers of the rows increase in the order of insertion, and no identifier stands twice
(`Database.Numbered`). A row keeps its number and its identifier as long as it is there (`Database.SameKeys`): a table
loses rows by deletions alone, and a new row has a number above all others. Triggers that refuse updates do not matter
here, so all requests keep this.
-/

namespace Dossier

open Text Outcome

/-- The number of a row and the identifier of its document. -/
def Row.key (r : Row) : Int × String := (r.rowid, r.id)

namespace Table

/-- The keys of the rows in order. -/
def keys (t : Table) : List (Int × String) := t.rows.map Row.key

/-- The numbers of the rows increase, and their identifiers are distinct. -/
structure Numbered (t : Table) : Prop where
  increasing : (t.keys.map (·.1)).Pairwise (· < ·)
  distinct : (t.keys.map (·.2)).Nodup

variable {t t' : Table} {r s : Row}

theorem Numbered.of_keys (h : t.Numbered) (same : t'.keys = t.keys) : t'.Numbered :=
  ⟨same ▸ h.increasing, same ▸ h.distinct⟩

theorem Numbered.rowids (h : t.Numbered) : t.rows.Pairwise fun r s => r.rowid < s.rowid := by
  have increasing := h.increasing
  rw [keys, List.map_map, List.pairwise_map] at increasing
  exact increasing

theorem Numbered.nodup_rowids (h : t.Numbered) : (t.rows.map Row.rowid).Nodup :=
  List.pairwise_map.2 (h.rowids.imp fun lt => Int.ne_of_lt lt)

theorem Numbered.nodup_ids (h : t.Numbered) : (t.rows.map Row.id).Nodup := by
  have distinct := h.distinct
  rw [keys, List.map_map] at distinct
  exact distinct

/-- Rows with one number are one. -/
theorem Numbered.eq_of_rowid (h : t.Numbered) (hr : r ∈ t.rows) (hs : s ∈ t.rows) (same : r.rowid = s.rowid) : r = s :=
  List.inj_on_of_nodup_map h.nodup_rowids hr hs same

/-- Rows with one identifier are one. -/
theorem Numbered.eq_of_id (h : t.Numbered) (hr : r ∈ t.rows) (hs : s ∈ t.rows) (same : r.id = s.id) : r = s :=
  List.inj_on_of_nodup_map h.nodup_ids hr hs same

theorem numbered_nil (name : String) (columns : List String) : Numbered ⟨name, columns, []⟩ := ⟨.nil, .nil⟩

/-- The empty filter holds of all rows. -/
theorem select_nil (t : Table) : t.select [] = t.rows := List.filter_eq_self.2 fun _ _ => rfl

/-- Taking rows out leaves the others numbered. -/
theorem Numbered.filter (h : t.Numbered) (p : Row → Bool) : Numbered { t with rows := t.rows.filter p } := by
  have sub : ((t.rows.filter p).map Row.key).Sublist (t.rows.map Row.key) := List.filter_sublist.map _
  exact ⟨h.increasing.sublist (sub.map _), h.distinct.sublist (sub.map _)⟩

/-- A row with the next number and an identifier of its own comes last. -/
theorem Numbered.addRow (h : t.Numbered) (number : r.rowid = t.nextRowid) (new : ∀ s ∈ t.rows, s.id ≠ r.id) :
    (t.addRow r).Numbered := by
  have keys_eq : (t.addRow r).keys = t.keys ++ [r.key] := List.map_append
  constructor
  · rw [keys_eq, List.map_append, List.pairwise_append]
    refine ⟨h.increasing, List.pairwise_singleton _ _, ?_⟩
    simp only [keys, List.map_map, List.map_cons, List.map_nil, List.mem_singleton, forall_eq, List.forall_mem_map]
    intro s mem
    exact lt_of_lt_of_eq (lt_nextRowid mem) number.symm
  · rw [keys_eq, List.map_append, List.nodup_append]
    refine ⟨h.distinct, List.nodup_singleton _, ?_⟩
    simp only [keys, List.map_map, List.map_cons, List.map_nil, List.mem_singleton, forall_eq, List.forall_mem_map]
    exact new

end Table

namespace Database

/-- Tables have names of their own, and each is numbered. -/
structure Numbered (db : Database) : Prop where
  names : db.tables.Pairwise fun s t => sameName s.name t.name = false
  tables : ∀ t ∈ db.tables, t.Numbered

/-- The same tables with the same keys. -/
def SameKeys (after db : Database) : Prop :=
  after.tables.map (fun t => (t.name, t.keys)) = db.tables.map fun t => (t.name, t.keys)

variable {db mid after : Database} {table : String} {t : Table} {row : Row}

theorem Numbered.tidy (h : db.Numbered) : db.Tidy := ⟨h.names, fun t mem => (h.tables t mem).nodup_rowids⟩

namespace SameKeys

theorem refl (db : Database) : SameKeys db db := rfl

theorem trans (h : SameKeys after mid) (h' : SameKeys mid db) : SameKeys after db := Eq.trans h h'

/-- Tables change, and none its name or its keys. -/
theorem of_mapTable {f : Table → Table}
    (keeps : ∀ t ∈ db.tables, sameName t.name table = true → (f t).name = t.name ∧ (f t).keys = t.keys) :
    SameKeys (db.mapTable table f) db := by
  unfold SameKeys mapTable
  rw [List.map_map]
  refine List.map_congr_left fun t mem => ?_
  simp only [Function.comp]
  split
  · obtain ⟨name, keys⟩ := keeps t mem ‹_›
    rw [name, keys]
  · rfl

theorem numbered (h : SameKeys after db) (numbered : db.Numbered) : after.Numbered := by
  have paired : ∀ t ∈ after.tables, ∃ u ∈ db.tables, t.keys = u.keys := by
    intro t mem
    have : (t.name, t.keys) ∈ db.tables.map fun t => (t.name, t.keys) := h ▸ List.mem_map_of_mem mem
    obtain ⟨u, hu, eq⟩ := List.mem_map.1 this
    exact ⟨u, hu, (Prod.mk.inj eq).2.symm⟩
  constructor
  · have names : after.tables.map Table.name = db.tables.map Table.name := by
      simpa [Function.comp_def] using congrArg (List.map Prod.fst) h
    have apart := numbered.names
    rw [← List.pairwise_map (R := fun a b => sameName a b = false)] at apart ⊢
    rwa [names]
  · intro t mem
    obtain ⟨u, hu, same⟩ := paired t mem
    exact (numbered.tables u hu).of_keys same

/-- The table of a name has the keys that it had. -/
theorem exists_table? (h : SameKeys after db) (found : db.table? table = some t) :
    ∃ t', after.table? table = some t' ∧ t'.keys = t.keys := by
  have all : ∀ l l' : List Table, l'.map (fun t => (t.name, t.keys)) = l.map (fun t => (t.name, t.keys)) →
      l.find? (fun t => sameName t.name table) = some t →
      ∃ t', l'.find? (fun t => sameName t.name table) = some t' ∧ t'.keys = t.keys := by
    intro l
    induction l with
    | nil => intro l' _ found; cases found
    | cons u rest ih =>
      intro l' same found
      cases l' with
      | nil => cases same
      | cons u' rest' =>
        rw [List.map_cons, List.map_cons, List.cons.injEq, Prod.mk.injEq] at same
        rw [List.find?_cons] at found ⊢
        rw [same.1.1]
        split at found
        · cases found
          exact ⟨u', rfl, same.1.2⟩
        · exact ih rest' same.2 found
  exact all _ _ h found

end SameKeys

namespace Numbered

/-- A row takes the place of the one with its key. -/
theorem putRow (numbered : db.Numbered) (found : db.table? table = some t) (mem : row.key ∈ t.keys) :
    SameKeys (db.putRow table row) db := by
  refine .of_mapTable fun u hu here => ⟨rfl, ?_⟩
  obtain rfl := Option.some.inj ((numbered.tidy.table?_eq_some hu here).symm.trans found)
  obtain ⟨old, hold, key⟩ := List.mem_map.1 mem
  rw [Table.keys, List.map_map]
  refine List.map_congr_left fun r hr => ?_
  simp only [Function.comp]
  split
  · rename_i same
    have : r = old := (numbered.tables u hu).eq_of_rowid hr hold (same.trans (congrArg Prod.fst key).symm)
    rw [this, key]
  · rfl

theorem setColumn {rowid : Int} {column : String} {v : Value} (numbered : db.Numbered)
    (made : db.setColumn table rowid column v = .ok after) : SameKeys after db := by
  obtain ⟨t, found, ⟨-, rfl⟩ | ⟨row, mem, -, -, rfl⟩⟩ := setColumn_cases made
  · exact .refl _
  · have key : row.key ∈ t.keys := List.mem_map_of_mem mem
    exact numbered.putRow found key

/-- Whatever each of some steps does to the numbered databases with certain keys, all of them together do. -/
theorem foldlM {α : Type} {f : Database → α → Except EngineError Database} {l : List α} (numbered : db.Numbered)
    (step : ∀ x ∈ l, ∀ mid after, mid.Numbered → SameKeys mid db → f mid x = .ok after → SameKeys after mid)
    (made : l.foldlM f db = .ok after) : SameKeys after db :=
  (foldlM_keeps (P := fun mid => mid.Numbered ∧ SameKeys mid db) (fun x mem mid after here made =>
    have next := step x mem mid after here.1 here.2 made
    ⟨next.numbered here.1, next.trans here.2⟩) ⟨numbered, .refl _⟩ made).2

theorem foldlM_after {gs : List Trigger} (numbered : db.Numbered) (made : gs.foldlM (Database.after row) db = .ok after) :
    SameKeys after db := by
  refine numbered.foldlM (fun g _ mid after here _ made => ?_) made
  unfold Database.after at made
  split at made
  · exact here.setColumn made
  · cases made
    exact .refl _

theorem fillColumn {column : String} {path : FieldPath} (numbered : db.Numbered)
    (made : db.fillColumn table column path = .ok after) : SameKeys after db := by
  obtain ⟨t, -, made⟩ := bind_eq_ok.1 made
  exact numbered.foldlM (fun r _ mid after here _ made => here.setColumn made) made

/-- Rows get new states under the keys that they have. -/
theorem updateRows {n : Nat} {changes : Table → Except EngineError (List (Row × Row))} (numbered : db.Numbered)
    (rewrites : ∀ t cs, changes t = .ok cs → Rewrites t cs) (made : db.updateRows table changes = .ok (n, after)) :
    SameKeys after db := by
  obtain ⟨t, found, made⟩ := bind_eq_ok.1 made
  rw [tableOf_eq_ok] at found
  obtain ⟨gs, -, made⟩ := bind_eq_ok.1 made
  obtain ⟨cs, changed, made⟩ := bind_eq_ok.1 made
  obtain ⟨last, folded, made⟩ := bind_eq_ok.1 made
  cases made
  obtain ⟨rows, rowid, id, -⟩ := rewrites t cs changed
  refine numbered.foldlM (fun c mem mid after here same made => ?_) folded
  obtain ⟨t', found', keys⟩ := same.exists_table? found
  have key : c.2.key ∈ t'.keys := by
    rw [keys, Row.key, rowid c mem, id c mem]
    exact List.mem_map_of_mem (f := Row.key) (rows.subset (List.mem_map_of_mem mem))
  obtain ⟨_, -, made⟩ := bind_eq_ok.1 made
  have put := here.putRow found' key
  exact ((put.numbered here).foldlM_after made).trans put

/-! ## What changes keep -/

theorem mapTable {f : Table → Table} (numbered : db.Numbered) (name : ∀ t, (f t).name = t.name)
    (kept : ∀ t ∈ db.tables, sameName t.name table = true → (f t).Numbered) : (db.mapTable table f).Numbered := by
  refine ⟨(numbered.tidy.mapTable name fun t mem here => (kept t mem here).nodup_rowids).names, fun t mem => ?_⟩
  obtain ⟨u, hu, rfl⟩ := List.mem_map.1 mem
  split
  · exact kept u hu ‹_›
  · exact numbered.tables u hu

theorem createTable {name : CollectionName} (numbered : db.Numbered) (made : db.createTable name = .ok after) :
    after.Numbered := by
  unfold Database.createTable at made
  split at made
  · cases made
    exact numbered
  · rename_i absent
    split at made
    · cases made
    · cases made
      have fresh : ∀ t ∈ db.tables, sameName t.name name.text = false := by simpa [table?] using absent
      refine ⟨List.pairwise_append.2 ⟨numbered.names, List.pairwise_singleton _ _, fun t mem u hu => ?_⟩, fun t mem => ?_⟩
      · rw [List.mem_singleton.1 hu]
        exact fresh t mem
      · rcases List.mem_append.1 mem with mem | mem
        · exact numbered.tables t mem
        · rw [List.mem_singleton.1 mem]
          exact Table.numbered_nil _ _

theorem insertRow {id body : String} {now : Int} (numbered : db.Numbered)
    (made : db.insertRow table id body now = .ok after) : after.Numbered := by
  obtain ⟨t, found, made⟩ := bind_eq_ok.1 made
  rw [tableOf_eq_ok] at found
  obtain ⟨gs, -, made⟩ := bind_eq_ok.1 made
  obtain ⟨b, -, made⟩ := bind_eq_ok.1 made
  obtain ⟨_, -, made⟩ := bind_eq_ok.1 made
  simp only at made
  split at made
  · cases made
  · rename_i new
    simp only [List.any_eq_true, decide_eq_true_eq, not_exists, not_and] at new
    have added : (db.mapTable table (Table.addRow ⟨t.nextRowid, id, b, now, now, []⟩)).Numbered := by
      refine numbered.mapTable (Table.addRow_name _) fun u hu here => ?_
      obtain rfl := Option.some.inj ((numbered.tidy.table?_eq_some hu here).symm.trans found)
      exact (numbered.tables u hu).addRow rfl new
    exact (added.foldlM_after made).numbered added

theorem run {name : CollectionName} {r : Resolver} {s : Statement .changed} {n : Nat} (numbered : db.Numbered)
    (made : db.run name r s = .ok (n, after)) : after.Numbered := by
  replace made := answer_of_run made
  cases s with
  | change changes p cardinality now =>
    exact (numbered.updateRows (fun t cs made => rewrites_of_edits (targets_sublist t p cardinality) made) made).numbered
      numbered
  | overwrite id body now =>
    refine (numbered.updateRows (fun t cs made => rewrites_of_mapM List.filter_sublist (fun r s state => ?_) made)
      made).numbered numbered
    obtain ⟨b, -, rfl⟩ := withBody_eq_ok state
    exact ⟨rfl, rfl, rfl⟩
  | insert id body now =>
    obtain ⟨last, inserted, made⟩ := bind_eq_ok.1 made
    cases made
    exact numbered.insertRow inserted
  | delete p cardinality =>
    obtain ⟨t, -, made⟩ := bind_eq_ok.1 made
    cases made
    exact numbered.mapTable (fun _ => rfl) fun t mem _ => (numbered.tables t mem).filter _

/-- Every change of a database keeps its rows numbered. -/
theorem change (numbered : db.Numbered) (changed : db.Change after) : after.Numbered := by
  cases changed with
  | createTable name made => exact numbered.createTable made
  | run name r s n made => exact numbered.run made
  | addColumn table column made =>
    obtain ⟨t, -, made⟩ := bind_eq_ok.1 made
    split at made
    · cases made
    · cases made
      exact numbered.mapTable (fun _ => rfl) fun t mem _ => (numbered.tables t mem).of_keys rfl
  | fillColumn table column path made => exact (numbered.fillColumn made).numbered numbered
  | createIndex i made =>
    obtain ⟨-, rfl⟩ | ⟨t, -, -, rfl⟩ := createIndex_eq_ok made
    · exact numbered
    · exact ⟨numbered.names, numbered.tables⟩
  | replaceTriggers triggers made =>
    obtain ⟨l, rfl, -⟩ := replaceTriggers_eq_ok made
    exact ⟨numbered.names, numbered.tables⟩
  | createTrigger trigger made =>
    obtain ⟨t, -, made⟩ := bind_eq_ok.1 made
    split at made
    · cases made
    · cases made
      exact ⟨numbered.names, numbered.tables⟩
  | recordPromotion entry => exact ⟨numbered.names, numbered.tables⟩
  | recordCheck entry =>
    unfold Database.recordCheck
    split
    · exact numbered
    · exact ⟨numbered.names, numbered.tables⟩
  | putBody table id data n made =>
    exact (numbered.updateRows (fun t cs => rewrites_of_putBody) made).numbered numbered

end Numbered

/-- All requests keep the rows numbered. -/
theorem kept_numbered : Kept Numbered fun _ => True :=
  kept_of_changes ⟨.nil, by simp [empty]⟩ (fun _ _ h => ⟨h.names, h.tables⟩) fun _ _ => Numbered.change

end Database

end Dossier
