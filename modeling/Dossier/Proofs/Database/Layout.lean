import Dossier.Proofs.Database.Giving
import Dossier.Proofs.Session.Script

/-!
# The columns of tables and the registry

Which tables there are, with which columns, is the layout of a database. Of all changes only those of the schema change the
layout or the registry (`Database.SameLayout`). A promotion appends the column of its path to the table exactly when it appends
an entry to the registry (`Database.promote_layout`), provided that the table has the columns of the entries and no others.
-/

namespace Dossier

open Text Outcome

namespace Database

/-- The columns of a table beyond those of every table; none if there is no such table. -/
def columnsOf (db : Database) (table : String) : List String := (db.table? table).elim [] Table.columns

/-- The tables and their columns are the same, and so is the registry. -/
structure SameLayout (after db : Database) : Prop where
  layout : after.layout = db.layout
  promotions : after.promotions = db.promotions

variable {db after mid : Database} {table column : String} {name : CollectionName} {path : FieldPath}

theorem columnsOf_eq (db : Database) (table : String) :
    db.columnsOf table = ((db.layout.find? fun e => sameName e.1 table).map Prod.snd).getD [] := by
  unfold columnsOf table? layout
  rw [List.find?_map, Option.map_map]
  show _ = ((db.tables.find? fun t => sameName t.name table).map Table.columns).getD []
  cases db.tables.find? fun t => sameName t.name table <;> rfl

namespace SameLayout

theorem refl (db : Database) : db.SameLayout db := ⟨rfl, rfl⟩

theorem trans (h : after.SameLayout mid) (h' : mid.SameLayout db) : after.SameLayout db :=
  ⟨h.layout.trans h'.layout, h.promotions.trans h'.promotions⟩

theorem columnsOf (h : after.SameLayout db) (table : String) : after.columnsOf table = db.columnsOf table := by
  rw [columnsOf_eq, columnsOf_eq, h.layout]

/-- What gives bodies to rows changes neither columns nor registry. -/
theorem of_gave {B : Body → Prop} (h : Gave table B db after) : after.SameLayout db := ⟨h.layout, by rw [h.rest]⟩

/-! ## Indexes and triggers -/

theorem createIndex {i : Index} (made : db.createIndex i = .ok after) : after.SameLayout db := by
  rcases createIndex_eq_ok made with ⟨-, rfl⟩ | ⟨_, -, -, rfl⟩
  · exact .refl _
  · exact ⟨rfl, rfl⟩

theorem replaceTriggers {gs : List Trigger} (made : db.replaceTriggers gs = .ok after) : after.SameLayout db := by
  obtain ⟨_, rfl, -⟩ := replaceTriggers_eq_ok made
  exact ⟨rfl, rfl⟩

theorem createTrigger {g : Trigger} (made : db.createTrigger g = .ok after) : after.SameLayout db := by
  obtain ⟨_, -, made⟩ := bind_eq_ok.1 made
  split at made
  · cases made
  · cases made
    exact ⟨rfl, rfl⟩

theorem recordCheck (entry : CheckEntry) : (db.recordCheck entry).SameLayout db := by
  unfold Database.recordCheck
  split
  · exact .refl db
  · exact ⟨rfl, rfl⟩

end SameLayout

/-! ## The registry -/

theorem SameLayout.sites (h : after.SameLayout db) : after.sites = db.sites := by
  rw [Database.sites, h.promotions, Database.sites]

/-- The sites after an entry: its own is appended unless it is there. -/
theorem sites_recordPromotion (db : Database) (p : Promotion) :
    (⟨p.collection, p.path⟩ ∈ db.sites ∧ (db.recordPromotion p).sites = db.sites)
      ∨ (⟨p.collection, p.path⟩ ∉ db.sites ∧ (db.recordPromotion p).sites = db.sites ++ [⟨p.collection, p.path⟩]) := by
  unfold Database.recordPromotion Database.sites
  simp only
  induction db.promotions with
  | nil => exact .inr ⟨List.not_mem_nil, rfl⟩
  | cons q rest ih =>
    unfold enter
    by_cases same : q.collection = p.collection ∧ q.path = p.path
    · rw [if_pos (by simpa using same)]
      refine .inl ⟨List.mem_cons.2 (.inl ?_), rfl⟩
      show (⟨p.collection, p.path⟩ : Site) = ⟨q.collection, q.path⟩
      rw [same.1, same.2]
    · have other : (⟨p.collection, p.path⟩ : Site) ≠ ⟨q.collection, q.path⟩ := fun eq =>
        same ⟨(congrArg Site.collection eq).symm, (congrArg Site.path eq).symm⟩
      rw [if_neg (by simpa using same), List.map_cons, List.map_cons]
      rcases ih with ⟨mem, kept⟩ | ⟨new, appended⟩
      · exact .inl ⟨List.mem_cons_of_mem _ mem, congrArg _ kept⟩
      · exact .inr ⟨fun mem => (List.mem_cons.1 mem).elim other new, congrArg _ appended⟩

/-- The column is appended to those of the table unless it is there, and the rest stays. -/
theorem ensureColumn_columnsOf (made : db.ensureColumn table column = .ok after) : after.promotions = db.promotions
    ∧ ∃ t, db.table? table = some t
      ∧ after.columnsOf table = if t.hasColumn column then db.columnsOf table else db.columnsOf table ++ [column] := by
  obtain ⟨t, found, made⟩ := bind_eq_ok.1 made
  rw [tableOf_eq_ok] at found
  split at made
  · rename_i present
    cases made
    exact ⟨rfl, t, found, (if_pos present).symm⟩
  · rename_i absent
    obtain ⟨u, -, made⟩ := bind_eq_ok.1 made
    split at made
    · cases made
    · cases made
      have added := found_mapTable (f := fun t => { t with columns := t.columns ++ [column] }) (fun _ => rfl) found
      refine ⟨rfl, t, found, ?_⟩
      rw [if_neg absent, columnsOf, columnsOf, added, found]
      rfl

/-- A promotion makes sure of the column and enters the path. -/
theorem promote_layout {unique : Bool} {time : Int} (made : db.promote name path unique time = .ok after) : ∃ placed last : Database,
    db.ensureColumn name.text path.column = .ok placed ∧ last.SameLayout placed
      ∧ after = last.recordPromotion (name.promotion path unique time) := by
  obtain ⟨placed, synced, filled, last, ensured, triggered, written, indexed, rfl⟩ := promote_steps made
  have same := ((SameLayout.createIndex indexed).trans (.of_gave written)).trans (.replaceTriggers triggered)
  exact ⟨placed, last, ensured, same, rfl⟩

/-! ## The columns of the registry -/

/-- All promoted paths are of one collection, no two of them have columns of one name, none of these is reserved, and the table
has them, in the order of the registry, and no others. -/
structure Listed (collection : String) (db : Database) : Prop where
  own : ∀ s ∈ db.sites, s.collection = collection
  targets : ∀ s ∈ db.sites, s.path.targetColumn = .ok s.column
  apart : db.sites.Pairwise fun s q => sameName s.column q.column = false
  columns : db.columnsOf collection = db.sites.map Site.column

namespace Listed

variable {collection : String}

theorem congr (h : db.Listed collection) (same : after.SameLayout db) : after.Listed collection := by
  obtain ⟨own, targets, apart, columns⟩ := h
  rw [← same.sites] at own targets apart columns
  exact ⟨own, targets, apart, (same.columnsOf collection).trans columns⟩

theorem createTable (h : db.Listed name.text) (made : db.createTable name = .ok after) : after.Listed name.text := by
  unfold Database.createTable at made
  split at made
  · cases made
    exact h
  · rename_i absent
    split at made
    · cases made
    · cases made
      have absent : db.table? name.text = none := by simpa using absent
      refine ⟨h.own, h.targets, h.apart, ?_⟩
      have none_ : db.columnsOf name.text = [] := by rw [columnsOf, absent]; rfl
      have new : table? { db with tables := db.tables ++ [⟨name.text, [], []⟩] } name.text = some ⟨name.text, [], []⟩ := by
        unfold table? at absent ⊢
        rw [List.find?_append, absent]
        simp [sameName_refl]
      rw [columnsOf, new]
      exact none_.symm.trans h.columns

/-- A promotion that is admitted appends to the table the column that it appends to the registry: the table has a column of the
name only if the path is registered. -/
theorem promote (h : db.Listed name.text) {unique : Bool} {time : Int} (admits : db.Admits name path)
    (made : db.promote name path unique time = .ok after) : after.Listed name.text := by
  let n : Site := ⟨name.text, path⟩
  obtain ⟨placed, last, ensured, same, rfl⟩ := promote_layout made
  obtain ⟨promotions, t, found, columns⟩ := ensureColumn_columnsOf ensured
  have sites : last.sites = db.sites := by rw [same.sites, Database.sites, promotions, Database.sites]
  have seen : t.columns = db.sites.map Site.column := by
    rw [← h.columns, columnsOf, found]
    rfl
  -- a registered path whose column has the name is the promoted one
  have owner : ∀ s ∈ db.sites, sameName s.column n.column = true → n ∈ db.sites := by
    intro s mem column
    obtain ⟨p, entry, rfl⟩ := List.mem_map.1 mem
    obtain ⟨first, there, collection, path_⟩ := admits.exists_entry entry (h.own _ mem) (p.named ▸ column)
    exact List.mem_map.2 ⟨first, there, by rw [collection, path_]⟩
  have present : t.hasColumn n.column = true ↔ n ∈ db.sites := by
    rw [hasColumn_of_target admits.target, seen, List.any_map, List.any_eq_true]
    constructor
    · rintro ⟨s, mem, column⟩
      exact owner s mem (sameName_symm column)
    · exact fun mem => ⟨n, mem, sameName_refl _⟩
  rcases sites_recordPromotion last (name.promotion path unique time) with ⟨known, kept⟩ | ⟨new, appended⟩
  · rw [sites] at known kept
    have columns' : (last.recordPromotion (name.promotion path unique time)).columnsOf name.text = db.columnsOf name.text :=
      (same.columnsOf _).trans (columns.trans (if_pos (present.2 known)))
    exact ⟨kept ▸ h.own, kept ▸ h.targets, kept ▸ h.apart, by rw [columns', kept, h.columns]⟩
  · rw [sites] at new appended
    have columns' : (last.recordPromotion (name.promotion path unique time)).columnsOf name.text
        = db.columnsOf name.text ++ [n.column] :=
      (same.columnsOf _).trans (columns.trans (if_neg fun there => new (present.1 there)))
    refine ⟨?_, ?_, ?_, ?_⟩
    · rw [appended]
      exact List.forall_mem_append.2 ⟨h.own, by simp⟩
    · rw [appended]
      exact List.forall_mem_append.2 ⟨h.targets, List.forall_mem_singleton.2 admits.target⟩
    · rw [appended]
      refine List.pairwise_append.2 ⟨h.apart, List.pairwise_singleton _ _, fun s mem q last => ?_⟩
      rw [List.mem_singleton.1 last, Bool.eq_false_iff]
      exact fun column => new (owner s mem column)
    · rw [columns', appended, List.map_append, h.columns]
      rfl

end Listed

end Database

end Dossier
