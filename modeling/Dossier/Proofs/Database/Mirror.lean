import Dossier.Collection.Check
import Dossier.Proofs.Database.Sound

/-!
# Promoted columns mirror the bodies

The triggers of a promoted path are named after the collection and the column, so two promoted paths may ask for
triggers of one name: then they are rivals, and the later one takes the triggers away. `Database.Mirroring` says
what the store keeps in spite of that: the column of every promoted path without a rival holds what the bodies
hold at the path. The statements that write rows keep it.
-/

namespace Dossier

open Text Outcome

/-- A promoted path of a collection. -/
structure Site where
  collection : String
  path : FieldPath
deriving DecidableEq

namespace Site

/-- The column of the site. -/
def column (s : Site) : String := s.path.column

/-- What the names of the site's triggers begin with. -/
def stem (s : Site) : String := s.collection ++ "__" ++ s.column

/-- The last part of the name of a trigger. -/
def part : TriggerEvent → String
  | .insert => "__sync_insert"
  | _ => "__sync_update"

/-- The trigger that keeps the column when the event happens. -/
def sync (s : Site) (event : TriggerEvent) : Trigger :=
  ⟨s.stem ++ part event, s.collection, event, .copy s.path s.column⟩

/-- Sites of the same path of the same table. -/
def Alike (s q : Site) : Prop := sameName s.collection q.collection = true ∧ s.path = q.path

/-- Sites of different paths whose triggers have the same names. -/
def Rival (s q : Site) : Prop := sameName s.stem q.stem = true ∧ ¬ s.Alike q

/-- The site has no rival among others. -/
def Free (known : List Site) (s : Site) : Prop := ∀ q ∈ known, ¬ s.Rival q

variable {s q : Site} {known : List Site}

theorem Alike.refl (s : Site) : s.Alike s := ⟨sameName_refl _, rfl⟩

theorem Alike.symm (h : s.Alike q) : q.Alike s := ⟨sameName_symm h.1, h.2.symm⟩

theorem Alike.trans {p : Site} (h : s.Alike q) (h' : q.Alike p) : s.Alike p :=
  ⟨sameName_trans h.1 h'.1, h.2.trans h'.2⟩

theorem Alike.column_eq (h : s.Alike q) : s.column = q.column := congrArg FieldPath.column h.2

/-- Sites of one column of one table have triggers of one name. -/
theorem stem_same (collection : sameName s.collection q.collection = true) (column : sameName s.column q.column = true) :
    sameName s.stem q.stem = true := by
  rw [sameName_iff] at *
  simp only [stem, foldCase_append, collection, column]

theorem Alike.stem_same (h : s.Alike q) : sameName s.stem q.stem = true :=
  Site.stem_same h.1 (by rw [h.column_eq]; exact sameName_refl _)

theorem Free.congr (free : s.Free known) (h : s.Alike q) : q.Free known := by
  rintro p mem ⟨same, unlike⟩
  exact free p mem ⟨sameName_trans h.stem_same same, fun alike => unlike (h.symm.trans alike)⟩

/-- A site with triggers of the name of a free one is of the same path. -/
theorem Free.alike (free : s.Free known) (mem : q ∈ known) (same : sameName s.stem q.stem = true) : s.Alike q :=
  Classical.byContradiction fun unlike => free q mem ⟨same, unlike⟩

theorem part_length (e e' : TriggerEvent) : (part e).length = (part e').length := by
  cases e <;> cases e' <;> decide

/-- Triggers of one name begin with one stem. -/
theorem stem_of_sync_name {e e' : TriggerEvent} (h : sameName (s.sync e).name (q.sync e').name = true) :
    sameName s.stem q.stem = true ∧ part e = part e' := by
  have parts : sameName (part e) (part e') = true := by
    refine Classical.byContradiction fun ne => ?_
    have apart := sameName_append_of_ne (part_length e e') (Bool.eq_false_iff.2 ne) s.stem q.stem
    exact Bool.false_ne_true (apart.symm.trans h)
  have same : part e = part e' := by
    revert parts
    cases e <;> cases e' <;> decide
  refine ⟨?_, same⟩
  rw [sync, sync] at h
  simp only [same] at h
  rwa [sameName_append_right] at h

end Site

theorem CollectionName.derived_pair (name : CollectionName) (column part : String) :
    name.derived [column, part] = name.text ++ "__" ++ column ++ ("__" ++ part) := by
  apply String.toList_injective
  simp [derived, joinWith, List.intercalate, List.intersperse]

theorem CollectionName.copyTriggers_eq (name : CollectionName) (path : FieldPath) :
    name.copyTriggers path path.column = [Site.sync ⟨name.text, path⟩ .insert, Site.sync ⟨name.text, path⟩ .bodyUpdate] := by
  simp only [copyTriggers, derived_pair]
  rfl

/-- A trigger of a check, whose name is that of no trigger of a site. -/
structure Trigger.Guards (g : Trigger) : Prop where
  action : ∃ violation message, g.action = .check violation message
  event : g.event ≠ .anyUpdate
  apart : ∀ (s : Site) e, sameName g.name (s.sync e).name = false

namespace Database

/-- The sites in the registry. -/
def sites (db : Database) : List Site := db.promotions.map fun p => ⟨p.collection, p.path⟩

/-- Sound, with no triggers but those of checks and sites that are known, no columns but those of known sites, and
unique indexes on columns that are there. -/
structure Installed (known : List Site) (db : Database) : Prop where
  sound : db.Sound
  triggers : ∀ g ∈ db.triggers, g.Guards ∨ ∃ s ∈ known, ∃ e, e ≠ .anyUpdate ∧ g = s.sync e
  columns : ∀ t ∈ db.tables, ∀ c ∈ t.columns, ∃ s ∈ known, sameName s.collection t.name = true ∧ sameName s.column c = true
  indexes : ∀ i ∈ db.indexes, i.unique = true → ∀ c ∈ i.columns,
    ∃ t, db.table? i.table = some t ∧ t.columns.any (sameName c) = true
  targets : ∀ s ∈ known, s.path.targetColumn = .ok s.column

/-- The site's table has its column, the column of every row holds what the body holds at the path, and the triggers
are there that keep it so. -/
structure Mirrors (db : Database) (s : Site) : Prop where
  table : ∃ t, db.table? s.collection = some t ∧ t.columns.any (sameName s.column) = true
    ∧ ∀ r ∈ t.rows, r.promotedValue s.column = r.data.extract s.path
  triggers : ∀ e, e ≠ .anyUpdate → ∃ q : Site, s.Alike q ∧ q.sync e ∈ db.triggers

/-- All is installed for the registry, and every site without a rival in it is mirrored. -/
structure Mirroring (db : Database) : Prop where
  installed : db.Installed db.sites
  mirrors : ∀ s ∈ db.sites, s.Free db.sites → db.Mirrors s

variable {db after : Database} {known : List Site} {s q : Site} {table : String} {t : Table}

theorem Mirrors.congr (h : db.Mirrors s) (alike : s.Alike q) : db.Mirrors q := by
  obtain ⟨⟨t, found, column, rows⟩, triggers⟩ := h
  refine ⟨⟨t, table?_congr alike.1 ▸ found, alike.column_eq ▸ column, ?_⟩, fun e he => ?_⟩
  · rw [← alike.column_eq, ← alike.2]
    exact rows
  · obtain ⟨p, same, mem⟩ := triggers e he
    exact ⟨p, alike.symm.trans same, mem⟩

/-! ## Rows -/

theorem copied_data (db : Database) (table : String) (change : RowChange) (row : Row) :
    (db.copied table change row).data = row.data := by
  unfold copied
  generalize db.awaiting table change = gs
  suffices ∀ (body : Body) (r : Row), (gs.foldl (fun r g => g.copyInto body r) r).data = r.data from this row.data row
  intro body
  induction gs with
  | nil => exact fun _ => rfl
  | cons g rest ih =>
    intro r
    rw [List.foldl_cons, ih]
    unfold Trigger.copyInto
    split <;> rfl

/-- The triggers of a site without rivals bring its column up to date, whatever else they write. -/
theorem promotedValue_copied (installed : db.Installed known) (free : s.Free known) (mirrors : db.Mirrors s)
    (on : sameName table s.collection = true) {change : RowChange} (event : change ≠ .columnUpdate) (row : Row) :
    (db.copied table change row).promotedValue s.column = row.data.extract s.path := by
  refine Trigger.promotedValue_foldl_copyInto (fun g mem path c action same => ?_) row (.inr ?_)
  · obtain ⟨mem, onTable, -⟩ := mem_awaiting.1 mem
    rcases installed.triggers g mem with check | ⟨q, known, e, -, rfl⟩
    · obtain ⟨_, _, check⟩ := check.action
      rw [check] at action
      cases action
    · cases action
      have collection : sameName s.collection q.collection = true := sameName_symm (sameName_trans onTable on)
      rw [(free.alike known (Site.stem_same collection (sameName_symm same))).2]
  · obtain ⟨e, he, awaits⟩ : ∃ e, e ≠ .anyUpdate ∧ TriggerEvent.awaits e change = true := by
      cases change with
      | insert => exact ⟨.insert, by decide, rfl⟩
      | bodyUpdate => exact ⟨.bodyUpdate, by decide, rfl⟩
      | columnUpdate => exact absurd rfl event
    obtain ⟨q, alike, mem⟩ := mirrors.triggers e he
    refine ⟨q.sync e, mem_awaiting.2 ⟨mem, ?_, awaits⟩, q.path, q.column, rfl, ?_⟩
    · exact sameName_trans (sameName_symm alike.1) (sameName_symm on)
    · rw [alike.column_eq]
      exact sameName_refl _

/-- A change of the rows of a table that leaves the mirrored ones mirrored. -/
theorem Mirrors.mapTable {f : Table → Table} (h : db.Mirrors s) (name : ∀ t, (f t).name = t.name)
    (columns : ∀ t, (f t).columns = t.columns)
    (rows : ∀ t, db.table? s.collection = some t → sameName table s.collection = true →
      (∀ r ∈ t.rows, r.promotedValue s.column = r.data.extract s.path) →
      ∀ r ∈ (f t).rows, r.promotedValue s.column = r.data.extract s.path) : (db.mapTable table f).Mirrors s := by
  obtain ⟨⟨t, found, column, mirrored⟩, triggers⟩ := h
  refine ⟨?_, triggers⟩
  rw [table?_mapTable name]
  by_cases on : sameName table s.collection = true
  · rw [if_pos on, found]
    exact ⟨f t, rfl, by rwa [columns], rows t found on mirrored⟩
  · rw [if_neg on]
    exact ⟨t, found, column, mirrored⟩

/-- One row changes to a mirrored one. -/
theorem Mirrors.editRow {rowid : Int} {f : Row → Row} (h : db.Mirrors s)
    (row : ∀ r : Row, sameName table s.collection = true → r.promotedValue s.column = r.data.extract s.path →
      (f r).promotedValue s.column = (f r).data.extract s.path) : (db.editRow table rowid f).Mirrors s := by
  refine h.mapTable (Table.editRow_name rowid f) (Table.editRow_columns rowid f) fun t _ on mirrored r mem => ?_
  rcases Table.mem_editRow mem with ⟨mem, -⟩ | ⟨old, hold, -, rfl⟩
  · exact mirrored r mem
  · exact row old on (mirrored old hold)

/-- Statements that write keep the mirrors without rivals. -/
theorem Mirrors.wrote (installed : db.Installed known) (free : s.Free known) (h : db.Mirrors s)
    (wrote : db.Wrote table after) : after.Mirrors s := by
  have copies : ∀ (change : RowChange) (row : Row), change ≠ .columnUpdate → sameName table s.collection = true →
      (db.copied table change row).promotedValue s.column = (db.copied table change row).data.extract s.path := by
    intro change row event on
    rw [copied_data]
    exact promotedValue_copied installed free h on event row
  cases wrote with
  | inserted t found row bare =>
    refine h.mapTable (Table.addRow_name _) (Table.addRow_columns _) fun t _ on mirrored r mem => ?_
    rcases List.mem_append.1 mem with mem | mem
    · exact mirrored r mem
    · rw [List.mem_singleton.1 mem]
      exact copies .insert row (by decide) on
  | rewritten cs =>
    have all : ∀ (cs : List (Row × Row)) (mid : Database), mid.Mirrors s →
        (cs.foldl (fun mid c => mid.editRow table c.2.rowid fun _ => db.copied table .bodyUpdate c.2) mid).Mirrors s := by
      intro cs
      induction cs with
      | nil => exact fun mid h => h
      | cons c rest ih => exact fun mid h => ih _ (h.editRow fun _ on _ => copies .bodyUpdate c.2 (by decide) on)
    exact all cs db h
  | deleted rowids =>
    exact h.mapTable (fun _ => rfl) (fun _ => rfl) fun t _ _ mirrored r mem => mirrored r (List.mem_filter.1 mem).1

end Database

end Dossier
