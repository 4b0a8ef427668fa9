import Dossier.Proofs.Database.Numbers
import Dossier.Proofs.Database.RowTwins

/-!
# Which rows a statement touches

`Database.EachRow table S`: the rows of a table stay in their places, one by one as `S` says, and no other table changes.
An update that does not fail gives its rows their new states and leaves the others as they are
(`Database.Numbered.each_updateRows`), whatever the triggers copy into columns of their own.
-/

namespace Dossier

open Text Outcome

namespace Row

/-- A row where some rows have got new states: one that has got none is what it was, any other has its state, but for
promoted columns. -/
def Became (states : List Row) (r r' : Row) : Prop :=
  (r' = r ∧ ∀ s ∈ states, s.rowid ≠ r.rowid) ∨ ∃ s ∈ states, s.rowid = r.rowid ∧ r'.Twin True s

theorem became_nil (r : Row) : Became [] r r := .inl ⟨rfl, by simp⟩

/-- Later states come after earlier ones. -/
theorem Became.trans {states later : List Row} {r s u : Row} (h : Became states r s) (h' : Became later s u) :
    Became (states ++ later) r u := by
  have number : s.rowid = r.rowid := by
    rcases h with ⟨rfl, -⟩ | ⟨state, -, same, twin⟩
    · rfl
    · exact twin.rowid.trans same
  rcases h' with ⟨rfl, apart⟩ | ⟨state, mem, same, twin⟩
  · rcases h with ⟨rfl, others⟩ | ⟨state, mem, same, twin⟩
    · exact .inl ⟨rfl, List.forall_mem_append.2 ⟨others, apart⟩⟩
    · exact .inr ⟨state, List.mem_append_left _ mem, same, twin⟩
  · exact .inr ⟨state, List.mem_append_right _ mem, same.trans number, twin⟩

/-- Triggers may write promoted columns of the row with a number. -/
def Filled (rowid : Int) (r r' : Row) : Prop := r' = r ∨ r.rowid = rowid ∧ r'.Twin True r

theorem Filled.trans {rowid : Int} {r s u : Row} (h : Filled rowid r s) (h' : Filled rowid s u) : Filled rowid r u := by
  rcases h with rfl | ⟨here, twin⟩
  · exact h'
  · rcases h' with rfl | ⟨-, twin'⟩
    · exact .inr ⟨here, twin⟩
    · exact .inr ⟨here, twin'.trans twin⟩

/-- Filling columns of a row that stands behind the others leaves these as they are. -/
theorem filled_concat {rowid : Int} {row : Row} {rows rows' : List Row} (apart : ∀ r ∈ rows, r.rowid ≠ rowid)
    (filled : List.Forall₂ (Filled rowid) (rows ++ [row]) rows') : ∃ last, rows' = rows ++ [last] ∧ Filled rowid row last := by
  induction rows generalizing rows' with
  | nil =>
    obtain ⟨last, rest, here, none_, rfl⟩ := List.forall₂_cons_left_iff.1 filled
    cases none_
    exact ⟨last, rfl, here⟩
  | cons r rows ih =>
    obtain ⟨r', rest, here, later, rfl⟩ := List.forall₂_cons_left_iff.1 filled
    obtain ⟨others, behind⟩ := List.forall_mem_cons.1 apart
    obtain ⟨last, rfl, done⟩ := ih behind later
    rcases here with rfl | ⟨number, -⟩
    · exact ⟨last, rfl, done⟩
    · exact absurd number others

end Row

namespace Database

/-- The rows of the table stay in their places, one by one as `S` says, and no other table has changed. -/
structure EachRow (table : String) (S : Row → Row → Prop) (db after : Database) : Prop where
  rows : ∀ t, db.table? table = some t → ∃ t', after.table? table = some t' ∧ List.Forall₂ S t.rows t'.rows
  others : ∀ other, sameName table other = false → after.table? other = db.table? other

variable {db mid after : Database} {table : String} {t : Table} {S S' S'' : Row → Row → Prop}

namespace EachRow

theorem refl (same : ∀ r, S r r) (db : Database) : EachRow table S db db :=
  ⟨fun t found => ⟨t, found, List.forall₂_same.2 fun r _ => same r⟩, fun _ _ => rfl⟩

theorem trans (h : EachRow table S db mid) (h' : EachRow table S' mid after) (joined : ∀ r s u, S r s → S' s u → S'' r u) :
    EachRow table S'' db after := by
  have both : ∀ rows rows' rows'' : List Row, List.Forall₂ S rows rows' → List.Forall₂ S' rows' rows'' →
      List.Forall₂ S'' rows rows'' := by
    intro rows rows' rows'' first
    induction first generalizing rows'' with
    | nil => rintro ⟨⟩; exact .nil
    | cons here _ ih =>
      rintro ⟨⟩
      rename_i here' later
      exact .cons (joined _ _ _ here here') (ih _ later)
  refine ⟨fun t found => ?_, fun other apart => (h'.others other apart).trans (h.others other apart)⟩
  obtain ⟨t', found', first⟩ := h.rows t found
  obtain ⟨t'', found'', second⟩ := h'.rows t' found'
  exact ⟨t'', found'', both _ _ _ first second⟩

/-- A change of one table, row by row. -/
theorem of_mapTable {f : Row → Row} (change : ∀ t, db.table? table = some t → ∀ r ∈ t.rows, S r (f r)) :
    EachRow table S db (db.mapTable table fun t => { t with rows := t.rows.map f }) := by
  have name : ∀ t : Table, ({ t with rows := t.rows.map f } : Table).name = t.name := fun _ => rfl
  refine ⟨fun t found => ⟨_, found_mapTable name found, ?_⟩, fun other apart => ?_⟩
  · exact List.forall₂_map_right_iff.2 (List.forall₂_same.2 (change t found))
  · rw [table?_mapTable name, apart]
    rfl

/-- Tables of one name are one. -/
theorem congr {other : String} (h : EachRow table S db after) (same : sameName table other = true) :
    EachRow other S db after := by
  refine ⟨fun t found => ?_, fun third apart => h.others third ?_⟩
  · rw [← table?_congr same] at found
    obtain ⟨t', found', rows⟩ := h.rows t found
    exact ⟨t', table?_congr same ▸ found', rows⟩
  · rw [sameName_left same, apart]

end EachRow

namespace Numbered

/-- A row takes the place of the one with its number. -/
theorem each_putRow (db : Database) (table : String) (row : Row) :
    EachRow table (Row.Became [row]) db (db.putRow table row) := by
  refine .of_mapTable fun t _ r _ => ?_
  split
  · rename_i same
    exact .inr ⟨row, List.mem_cons_self, same.symm, rfl, rfl, rfl, fun _ => ⟨rfl, rfl⟩⟩
  · rename_i apart
    exact .inl ⟨rfl, List.forall_mem_singleton.2 (Ne.symm apart)⟩

theorem each_setColumn {rowid : Int} {column : String} {v : Value} (numbered : db.Numbered)
    (made : db.setColumn table rowid column v = .ok after) : EachRow table (Row.Filled rowid) db after := by
  obtain ⟨t, found, ⟨-, rfl⟩ | ⟨row, here, number, -, rfl⟩⟩ := setColumn_cases made
  · exact .refl (fun _ => .inl rfl) _
  · refine .of_mapTable fun u found' r mem => ?_
    split
    · rename_i same
      obtain rfl := Option.some.inj (found'.symm.trans found)
      have only : r = row := numbered.tidy.row_eq found mem here same
      exact .inr ⟨by rw [only, number], only ▸ Row.twin_setPromoted True row column v⟩
    · exact .inl rfl

/-- The triggers on a table that run after a row has been written fill columns of that row. -/
theorem each_after {row : Row} {gs : List Trigger} (numbered : db.Numbered) (on : ∀ g ∈ gs, sameName g.table table = true)
    (made : gs.foldlM (Database.after row) db = .ok after) :
    after.Numbered ∧ EachRow table (Row.Filled row.rowid) db after := by
  refine foldlM_keeps (P := fun mid => mid.Numbered ∧ EachRow table (Row.Filled row.rowid) db mid)
    (fun g mem mid after here made => ?_) ⟨numbered, .refl (fun _ => .inl rfl) _⟩ made
  unfold Database.after at made
  split at made
  · have step := (here.1.each_setColumn made).congr (on g mem)
    exact ⟨(here.1.setColumn made).numbered here.1, here.2.trans step fun _ _ _ => Row.Filled.trans⟩
  · cases made
    exact here

/-- The triggers that are ready are on the table. -/
theorem on_of_ready {change : RowChange} {gs : List Trigger} (found : db.table? table = some t)
    (ready : db.ready t change = .ok gs) : ∀ g ∈ gs, sameName g.table table = true :=
  (prepared_of_ready found ready).on

/-- One row gets a new state. -/
theorem each_updateRow {gs : List Trigger} {old new : Row} (numbered : db.Numbered) (found : db.table? table = some t)
    (here : new.key ∈ t.keys) (on : ∀ g ∈ gs, sameName g.table table = true)
    (made : updateRow gs table db (old, new) = .ok after) :
    after.Numbered ∧ EachRow table (Row.Became [new]) db after := by
  obtain ⟨_, -, made⟩ := bind_eq_ok.1 made
  have put := (numbered.putRow found here).numbered numbered
  obtain ⟨numbered', filled⟩ := put.each_after on made
  refine ⟨numbered', (each_putRow db table new).trans filled fun r s u became filled => ?_⟩
  rcases filled with rfl | ⟨number, twin⟩
  · exact became
  · rcases became with ⟨rfl, apart⟩ | ⟨state, mem, same, twin'⟩
    · exact absurd number.symm (apart new List.mem_cons_self)
    · exact .inr ⟨state, mem, same, twin.trans twin'⟩

/-- An update that does not fail gives rows their new states. -/
theorem each_updateRows {n : Nat} {changes : Table → Except EngineError (List (Row × Row))} (numbered : db.Numbered)
    (rewrites : ∀ t cs, changes t = .ok cs → Rewrites t cs) (made : db.updateRows table changes = .ok (n, after)) :
    after.Numbered ∧ ∃ t cs, db.table? table = some t ∧ changes t = .ok cs ∧ n = cs.length
      ∧ EachRow table (Row.Became (cs.map Prod.snd)) db after := by
  obtain ⟨t, found, made⟩ := bind_eq_ok.1 made
  rw [tableOf_eq_ok] at found
  obtain ⟨gs, ready, made⟩ := bind_eq_ok.1 made
  obtain ⟨cs, changed, made⟩ := bind_eq_ok.1 made
  obtain ⟨last, folded, made⟩ := bind_eq_ok.1 made
  cases made
  have on := on_of_ready found ready
  have keys : ∀ c ∈ cs, c.2.key ∈ t.keys := by
    intro c mem
    obtain ⟨rows, rowid, id, -⟩ := rewrites t cs changed
    rw [Row.key, rowid c mem, id c mem]
    exact List.mem_map_of_mem (f := Row.key) (rows.subset (List.mem_map_of_mem mem))
  -- the states that have been written so far, and the keys of the table
  have all : ∀ (rest : List (Row × Row)) (mid : Database) (done : List Row), (∀ c ∈ rest, c.2.key ∈ t.keys) →
      mid.Numbered → SameKeys mid db → EachRow table (Row.Became done) db mid →
      rest.foldlM (updateRow gs table) mid = .ok after →
      after.Numbered ∧ EachRow table (Row.Became (done ++ rest.map Prod.snd)) db after := by
    intro rest
    induction rest with
    | nil =>
      rintro mid done - numbered' - each made
      cases made
      rw [List.map_nil, List.append_nil]
      exact ⟨numbered', each⟩
    | cons c rest ih =>
      intro mid done mem numbered' keys' each made
      rw [List.foldlM_cons] at made
      obtain ⟨next, first, later⟩ := bind_eq_ok.1 made
      obtain ⟨t', found', same⟩ := keys'.exists_table? found
      obtain ⟨numbered'', step⟩ := numbered'.each_updateRow found' (same ▸ mem c List.mem_cons_self) on first
      obtain ⟨_, -, put⟩ := bind_eq_ok.1 first
      have kept := numbered'.putRow found' (same ▸ mem c List.mem_cons_self)
      have keys'' := (((kept.numbered numbered').foldlM_after put).trans kept).trans keys'
      have joined := each.trans step fun _ _ _ => Row.Became.trans
      rw [List.map_cons, List.append_cons]
      exact ih next _ (fun d hd => mem d (List.mem_cons_of_mem _ hd)) numbered'' keys'' joined later
  obtain ⟨numbered', each⟩ := all cs db [] keys numbered (.refl _) (.refl Row.became_nil _) folded
  exact ⟨numbered', t, cs, found, changed, rfl, each⟩

end Numbered

end Database

end Dossier
