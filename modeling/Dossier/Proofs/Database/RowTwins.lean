import Dossier.Proofs.Database.Reading
import Dossier.Proofs.Database.Sound

/-!
# Twin rows through writes

What a write of rows makes of two tables whose rows are twins one by one, and that triggers that copy, a new column
and the filling of one leave twins.
-/

namespace Dossier

/-! ## Rows -/

namespace Row

variable {timed : Prop} {r r' r'' : Row}

theorem Twin.symm (h : r.Twin timed r') : r'.Twin timed r :=
  ⟨h.rowid.symm, h.id.symm, h.data.symm, fun at_ => ⟨(h.times at_).1.symm, (h.times at_).2.symm⟩⟩

theorem Twin.trans (h : r.Twin timed r') (h' : r'.Twin timed r'') : r.Twin timed r'' :=
  ⟨h.rowid.trans h'.rowid, h.id.trans h'.id, h.data.trans h'.data, fun at_ =>
    ⟨(h.times at_).1.trans (h'.times at_).1, (h.times at_).2.trans (h'.times at_).2⟩⟩

theorem twin_setPromoted (timed : Prop) (r : Row) (column : String) (v : Value) : (r.setPromoted column v).Twin timed r :=
  ⟨rfl, rfl, rfl, fun _ => ⟨rfl, rfl⟩⟩

/-- Triggers that copy change promoted columns only. -/
theorem twin_copied (timed : Prop) (db : Database) (table : String) (change : RowChange) (r : Row) :
    (db.copied table change r).Twin timed r := by
  have all : ∀ (gs : List Trigger) (body : Body) (r : Row), (gs.foldl (fun r g => g.copyInto body r) r).Twin timed r := by
    intro gs body
    induction gs with
    | nil => exact fun r => ⟨rfl, rfl, rfl, fun _ => ⟨rfl, rfl⟩⟩
    | cons g rest ih =>
      intro r
      refine (ih _).trans ?_
      show (g.copyInto body r).Twin timed r
      unfold Trigger.copyInto
      split
      · exact twin_setPromoted timed r _ _
      · exact ⟨rfl, rfl, rfl, fun _ => ⟨rfl, rfl⟩⟩
  exact all _ _ r

end Row

namespace Table

open Row

variable {timed : Prop} {t t' : Table}

/-- The rows of two tables are twins one by one. -/
abbrev RowTwins (timed : Prop) (t t' : Table) : Prop := List.Forall₂ (Twin timed) t.rows t'.rows

theorem RowTwins.refl (timed : Prop) (t : Table) : RowTwins timed t t :=
  List.forall₂_same.2 fun _ _ => ⟨rfl, rfl, rfl, fun _ => ⟨rfl, rfl⟩⟩

theorem RowTwins.trans {t'' : Table} (h : RowTwins timed t t') (h' : RowTwins timed t' t'') : RowTwins timed t t'' := by
  unfold RowTwins at *
  generalize t.rows = rows, t'.rows = rows', t''.rows = rows'' at h h'
  induction h generalizing rows'' with
  | nil => exact h'
  | cons first _ ih =>
    cases h' with
    | cons first' rest' => exact .cons (first.trans first') (ih _ rest')

theorem RowTwins.map_eq (h : RowTwins timed t t') {α : Type} (f : Row → α)
    (same : ∀ r r' : Row, r.Twin timed r' → f r = f r') : t.rows.map f = t'.rows.map f := by
  unfold RowTwins at h
  generalize t.rows = rows, t'.rows = rows' at h
  induction h with
  | nil => rfl
  | cons first _ ih => rw [List.map_cons, List.map_cons, same _ _ first, ih]

theorem RowTwins.nextRowid (h : RowTwins timed t t') : t.nextRowid = t'.nextRowid := by
  rw [Table.nextRowid, Table.nextRowid, h.map_eq Row.rowid fun _ _ twin => twin.rowid]

theorem RowTwins.any_id (h : RowTwins timed t t') (id : String) :
    (t.rows.any fun r => decide (r.id = id)) = t'.rows.any fun r => decide (r.id = id) := by
  have ids := h.map_eq Row.id fun _ _ twin => twin.id
  have through : ∀ rows : List Row, (rows.any fun r => decide (r.id = id)) = (rows.map Row.id).any fun i => decide (i = id) :=
    fun rows => by rw [List.any_map]; rfl
  rw [through, through, ids]

theorem RowTwins.addRow (h : RowTwins timed t t') {r r' : Row} (twin : r.Twin timed r') :
    RowTwins timed (t.addRow r) (t'.addRow r') := List.rel_append h (.cons twin .nil)

theorem RowTwins.editRow (h : RowTwins timed t t') {r r' : Row} (twin : r.Twin timed r') :
    RowTwins timed (t.editRow r.rowid fun _ => r) (t'.editRow r'.rowid fun _ => r') := by
  simp only [RowTwins, Table.editRow, List.forall₂_map_left_iff, List.forall₂_map_right_iff]
  refine h.imp fun s s' same => ?_
  rw [same.rowid, twin.rowid]
  split
  · exact twin
  · exact same

theorem RowTwins.rewrite {written written' : Row → Row} (copy : ∀ r, (written r).Twin timed r)
    (copy' : ∀ r, (written' r).Twin timed r) {cs cs' : List (Row × Row)}
    (new : List.Forall₂ (fun c c' : Row × Row => c.2.Twin timed c'.2) cs cs') (h : RowTwins timed t t') :
    RowTwins timed (t.rewrite written cs) (t'.rewrite written' cs') := by
  induction new generalizing t t' with
  | nil => exact h
  | @cons c c' _ _ first _ ih =>
    have twin := (copy c.2).trans (first.trans (copy' c'.2).symm)
    have edited := h.editRow twin
    rw [(copy c.2).rowid, (copy' c'.2).rowid] at edited
    exact ih edited

theorem RowTwins.deleteRows (h : RowTwins timed t t') (rowids : List Int) :
    List.Forall₂ (Twin timed) (t.rows.filter fun r => !rowids.contains r.rowid)
      (t'.rows.filter fun r => !rowids.contains r.rowid) := by
  unfold RowTwins at h
  generalize t.rows = rows, t'.rows = rows' at h
  induction h with
  | nil => exact .nil
  | cons first _ ih =>
    rw [List.filter_cons, List.filter_cons, first.rowid]
    split
    · exact .cons first ih
    · exact ih

/-- The filling of a column changes promoted columns only. -/
theorem rowTwins_fill (timed : Prop) (column : String) (path : FieldPath) (t : Table) : RowTwins timed (t.fill column path) t := by
  simp only [RowTwins, Table.fill, List.forall₂_map_left_iff]
  exact List.forall₂_same.2 fun r _ => twin_setPromoted timed r _ _

/-- New states keep the identifiers of a table. -/
theorem ids_rewrite {written : Row → Row} (copy : ∀ r, (written r).rowid = r.rowid ∧ (written r).id = r.id)
    {cs : List (Row × Row)} (rewrites : Database.Rewrites t cs) (nodup : (t.rows.map Row.rowid).Nodup) :
    (t.rewrite written cs).rows.map Row.id = t.rows.map Row.id := by
  induction cs generalizing t with
  | nil => rfl
  | cons c rest ih =>
    have keeps : ∀ r : Row, r.rowid = c.2.rowid → ((fun _ => written c.2) r : Row).rowid = c.2.rowid := fun _ _ => (copy c.2).1
    have rowids := Table.rowids_editRow keeps t
    refine (ih (rewrites.tail nodup _) (rowids ▸ nodup)).trans ?_
    simp only [Table.editRow, List.map_map]
    refine List.map_congr_left fun r mem => ?_
    simp only [Function.comp]
    split
    · rename_i same
      have old := rewrites.rows.subset List.mem_cons_self
      have number := same.trans (rewrites.rowid c List.mem_cons_self)
      have found := Database.find?_rowid nodup mem
      rw [number] at found
      rw [(copy c.2).2, rewrites.id c List.mem_cons_self, Option.some.inj (found.symm.trans (Database.find?_rowid nodup old))]
    · rfl

end Table

end Dossier
