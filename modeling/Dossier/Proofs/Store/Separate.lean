import Dossier.Proofs.Database.Columned
import Dossier.Proofs.Database.Unique
import Dossier.Proofs.Store.Mirror

/-!
# Promoted paths that have columns of their own

A collection gives no two of its promoted paths one column (`Database.Separate`), though the paths of two collections may be
rivals. So in a store whose promoted paths are all of one collection every promoted column mirrors its path
(`Database.Separate.mirrored`).
-/

namespace Dossier

open Text

namespace Database

/-- No two promoted paths of a collection have columns of one name. -/
def ColumnsApart (promotions : List Promotion) : Prop :=
  ∀ p ∈ promotions, ∀ q ∈ promotions, p.collection = q.collection → sameName p.column q.column = true → p.path = q.path

/-- Promoted columns mirror their paths but for rivals, and these are never of one collection. -/
def Separate (db : Database) : Prop := db.Mirroring ∧ ColumnsApart db.promotions

variable {db : Database} {name : CollectionName}

/-- A promotion that is admitted has a column of its own, or is there already. -/
theorem Admits.columnsApart {path : FieldPath} (admits : db.Admits name path) (apart : ColumnsApart db.promotions)
    (unique : Bool) (time : Int) : ColumnsApart (enter (name.promotion path unique time) db.promotions) := by
  have new : ∀ q ∈ db.promotions, q.collection = name.text → sameName q.column path.column = true → q.path = path := by
    intro q mem own same
    obtain ⟨first, there, collection, path_⟩ := admits.exists_entry mem own same
    have column : first.column = path.column := first.named.trans (congrArg FieldPath.column path_)
    rw [← path_]
    exact apart q mem first there (own.trans collection.symm) ((congrArg (sameName q.column) column).trans same)
  intro p hp q hq collection column
  rcases mem_enter hp with hp | ⟨⟨own, path_⟩, -⟩
  · rcases mem_enter hq with hq | ⟨⟨own, path_⟩, -⟩
    · exact apart p hp q hq collection column
    · rw [q.named, path_] at column
      exact (new p hp (collection.trans own) column).trans path_.symm
  · rcases mem_enter hq with hq | ⟨⟨-, path'⟩, -⟩
    · rw [p.named, path_] at column
      exact path_.trans (new q hq (collection.symm.trans own) (sameName_symm column)).symm
    · exact path_.trans path'.symm

/-- A property of the registry that promotions keep lasts beside the mirrors. -/
theorem lasting_registry {Q : List Promotion → Prop} (empty : Q [])
    (enters : ∀ (db : Database) (name : CollectionName) path unique time, db.Admits name path → Q db.promotions →
      Q (enter (name.promotion path unique time) db.promotions)) : Lasting fun db => db.Mirroring ∧ Q db.promotions where
  empty := ⟨mirroring_empty, empty⟩
  version _ version h := ⟨h.1.version version, h.2⟩
  tables db name after h made := by
    refine ⟨h.1.createTable made, ?_⟩
    unfold createTable at made
    split at made
    · cases made
      exact h.2
    · split at made <;> cases made
      exact h.2
  stable db name r s n after h made :=
    have ⟨sound, wrote⟩ := run_eq_ok h.1.installed.sound made
    ⟨h.1.wrote sound wrote, wrote.promotions ▸ h.2⟩
  promotes db name path unique time after h admits made :=
    ⟨h.1.promote admits.target made, (promote_eq_ok h.1 admits.target made).promotions ▸ enters db name path unique time admits h.2⟩
  compounds db name columns after h made := by
    refine ⟨lasting_mirroring.compounds db name columns after h.1 made, ?_⟩
    rcases createIndex_eq_ok made with ⟨-, rfl⟩ | ⟨_, _, _, rfl⟩ <;> exact h.2
  checks db name check message condition gs after h listed made := by
    refine ⟨lasting_mirroring.checks db name check message condition gs after h.1 listed made, ?_⟩
    obtain ⟨l, rfl, -⟩ := replaceTriggers_eq_ok made
    exact h.2
  records db entry h := by
    refine ⟨h.1.recordCheck entry, ?_⟩
    unfold recordCheck
    split <;> exact h.2
  puts db name id data n after h made := by
    obtain ⟨sound, _, cs, _, _, _, rfl⟩ := updateRows_eq_ok h.1.installed.sound (fun _ _ => rewrites_of_putBody) made
    have wrote : db.Wrote name.text (db.rewritten name.text cs) := .rewritten cs
    exact ⟨h.1.wrote sound wrote, wrote.promotions ▸ h.2⟩

/-- The columns of a collection stay apart. -/
theorem lasting_separate : Lasting Separate :=
  lasting_registry (fun _ mem => by cases mem) fun _ _ _ unique time admits apart => admits.columnsApart apart unique time

/-- Where all promoted paths are of one collection, its rows mirror them. -/
theorem Separate.mirrored (h : db.Separate) (own : ∀ p ∈ db.promotions, p.collection = name.text) {t : Table}
    (found : db.table? name.text = some t) : ∀ r ∈ t.rows, r.Mirrored (db.resolver name.text) := by
  intro r mem path promoted
  obtain ⟨p, known, rfl⟩ := List.mem_map.1 promoted
  have entry := (List.mem_filter.1 known).1
  have collection := own p entry
  have site : (⟨name.text, p.path⟩ : Site) ∈ db.sites := List.mem_map.2 ⟨p, entry, by rw [collection]⟩
  have free : Site.Free db.sites ⟨name.text, p.path⟩ := by
    rintro s there ⟨stem, unlike⟩
    obtain ⟨q, hq, rfl⟩ := List.mem_map.1 there
    have same : p.collection = q.collection := collection.trans (own q hq).symm
    rw [Site.stem, Site.stem, own q hq, sameName_append_left] at stem
    exact unlike ⟨by rw [own q hq]; exact sameName_refl _, h.2 p entry q hq same (by rwa [p.named, q.named])⟩
  obtain ⟨⟨u, found', -, rows⟩, -⟩ := h.1.mirrors _ site free
  obtain rfl := Option.some.inj (found.symm.trans found')
  exact rows r mem

end Database

end Dossier
