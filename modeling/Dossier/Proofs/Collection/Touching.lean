import Dossier.Proofs.Collection.Bodies
import Dossier.Proofs.Database.Touching
import Dossier.Proofs.Json.Decoding
import Dossier.Proofs.Session.Yields

/-!
# What an update touches and counts

`Collection.Ran`: an update that succeeds gives some of the rows that it is about other bodies, of which `Collection.Makes`
says what they hold, and it inserts at most one row (`Collection.ran_of_runUpdate`). `Table.Updated`: the counts tell how many
rows these are and how many texts have changed (`Collection.updated_of_runUpdate`). An update that writes documents anew tells
a change by the value it has read, so there what it writes has to read back (`Update.ReadsBack`).
-/

namespace Dossier

open Dossier.Action Database Outcome Text

/-- A step that succeeds at a list makes its elements one by one. -/
theorem Outcome.forall₂_of_mapM {ε α β : Type} {g : α → Except ε β} {l : List α} {ys : List β} (made : l.mapM g = .ok ys) :
    List.Forall₂ (fun x y => g x = .ok y) l ys := by
  induction l generalizing ys with
  | nil => cases made; exact .nil
  | cons x rest ih =>
    obtain ⟨y, others, here, later, rfl⟩ := mapM_cons_eq_ok.1 made
    exact .cons here (ih later)

/-- The text of the value reads as an equal value. -/
def Json.readsBack (j : Json) : Bool := ((Tree.read? j.text).bind Tree.json?).any j.equal

/-- What the update makes of a stored body reads back from its text. -/
def Update.ReadsBack (u : Update) (b : Body) : Prop :=
  ∀ fields after, b.decode = .ok fields → u.apply fields = .ok after → (Json.object after).readsBack = true

/-- Whether what the update makes of a stored body reads back. -/
def Update.rereads (u : Update) (b : Body) : Bool :=
  match b.decode with
  | .ok fields =>
    match u.apply fields with
    | .ok after => (Json.object after).readsBack
    | .error _ => true
  | .error _ => true

theorem Update.readsBack_iff {u : Update} {b : Body} : u.rereads b = true ↔ u.ReadsBack b := by
  unfold rereads ReadsBack
  constructor
  · intro h fields after decoded applied
    simpa [decoded, applied] using h
  · intro h
    split
    · rename_i fields decoded
      split
      · exact h fields _ decoded ‹_›
      · rfl
    · rfl

/-- A document that is written anew, because its value has changed, gets another text. -/
theorem Update.ReadsBack.text_ne {u : Update} {b : Body} {fields after : Fields} (reads : u.ReadsBack b)
    (decoded : b.decode = .ok fields) (applied : u.apply fields = .ok after)
    (changed : Json.equal (.object after) (.object fields) = false) : (Json.object after).text ≠ b.text := by
  intro same
  have back := reads fields after decoded applied
  have stored := Body.decode_eq_ok decoded
  rw [Tree.decode?] at stored
  split at stored
  · rw [Json.readsBack, same, b.reads, Option.bind_some, stored, Option.any_some, changed] at back
    cases back
  · cases stored

namespace Row

/-- The row with a body that is made of its own, written at some time. -/
structure Edited (makes : Body → Body → Prop) (r r' : Row) : Prop where
  state : ∃ b now, r' = { r with data := b, updatedAt := now }
  made : makes r.data r'.data

/-- A row after an update keeps its number, its identifier and the time it was made at, and unless its text has changed
the time of its last change. -/
structure Kept (r r' : Row) : Prop where
  rowid : r'.rowid = r.rowid
  id : r'.id = r.id
  createdAt : r'.createdAt = r.createdAt
  updatedAt : r'.data.text = r.data.text → r'.updatedAt = r.updatedAt

theorem Kept.refl (r : Row) : r.Kept r := ⟨rfl, rfl, rfl, fun _ => rfl⟩

variable {makes : Body → Body → Prop}

theorem Edited.rowid {r r' : Row} (h : r.Edited makes r') : r'.rowid = r.rowid := by
  obtain ⟨⟨b, now, rfl⟩, -⟩ := h
  rfl

theorem Edited.id {r r' : Row} (h : r.Edited makes r') : r'.id = r.id := by
  obtain ⟨⟨b, now, rfl⟩, -⟩ := h
  rfl

theorem Edited.kept {r s r' : Row} (h : r.Edited makes s) (text : s.data.text ≠ r.data.text) (twin : r'.Twin True s) :
    r.Kept r' ∧ r'.data.text ≠ r.data.text := by
  obtain ⟨⟨b, now, rfl⟩, -⟩ := h
  have differs : r'.data.text ≠ r.data.text := by rw [twin.data]; exact text
  exact ⟨⟨twin.rowid, twin.id, (twin.times trivial).1, fun same => absurd same differs⟩, differs⟩

end Row

namespace Table

/-- What an update that was about these rows has made of a table: the rows stand where they stood, and only these may have
changed; it counts them and those of which the text has changed. Behind them stands the row it may have inserted. -/
structure Updated (targets : List Row) (result : UpdateResult) (t t' : Table) : Prop where
  matched : result.matched = targets.length
  rows : ∃ kept added, t'.rows = kept ++ added
    ∧ List.Forall₂ (fun r r' => r.Kept r' ∧ (r ∉ targets → r' = r)) t.rows kept
    ∧ result.modified = ((t.rows.zip kept).filter fun p => decide (p.1.data.text ≠ p.2.data.text)).length
    ∧ added.map Row.id = result.upserted.toList

variable {t : Table} {targets rows : List Row} {cs : List (Row × Row)} {makes : Body → Body → Prop}

/-- A row among new states is as it was, or it has its state. -/
theorem Numbered.became_cases (numbered : t.Numbered) (stored : ∀ c ∈ cs, c.1 ∈ t.rows)
    (edited : ∀ c ∈ cs, c.1.Edited makes c.2) {r r' : Row} (mem : r ∈ t.rows) (became : Row.Became (cs.map Prod.snd) r r') :
    (r' = r ∧ r ∉ cs.map Prod.fst) ∨ ∃ s, (r, s) ∈ cs ∧ r'.Twin True s := by
  rcases became with ⟨rfl, others⟩ | ⟨s, hs, number, twin⟩
  · refine .inl ⟨rfl, fun first => ?_⟩
    obtain ⟨c, hc, eq⟩ := List.mem_map.1 first
    exact others c.2 (List.mem_map_of_mem hc) ((edited c hc).rowid.trans (congrArg Row.rowid eq))
  · obtain ⟨c, hc, rfl⟩ := List.mem_map.1 hs
    have same : c.1 = r := numbered.eq_of_rowid (stored c hc) mem ((edited c hc).rowid.symm.trans number)
    exact .inr ⟨c.2, same ▸ hc, twin⟩

/-- Rows of a table that have got another text, and no others, have changed. -/
theorem Numbered.kept_of_became (numbered : t.Numbered) (within : targets.Sublist t.rows)
    (sub : (cs.map Prod.fst).Sublist targets) (edited : ∀ c ∈ cs, c.1.Edited makes c.2)
    (texts : ∀ c ∈ cs, c.2.data.text ≠ c.1.data.text) (became : List.Forall₂ (Row.Became (cs.map Prod.snd)) t.rows rows) :
    List.Forall₂ (fun r r' => r.Kept r' ∧ (r ∉ targets → r' = r)) t.rows rows
      ∧ cs.length = ((t.rows.zip rows).filter fun p => decide (p.1.data.text ≠ p.2.data.text)).length := by
  obtain ⟨length, became⟩ := List.forall₂_iff_zip.1 became
  have stored : ∀ c ∈ cs, c.1 ∈ t.rows := fun c mem => within.subset (sub.subset (List.mem_map_of_mem mem))
  -- the row of a new state is the one with its number
  have each : ∀ r r', (r, r') ∈ t.rows.zip rows →
      (r' = r ∧ r ∉ cs.map Prod.fst) ∨ r ∈ cs.map Prod.fst ∧ r.Kept r' ∧ r'.data.text ≠ r.data.text := by
    intro r r' mem
    rcases numbered.became_cases stored edited (List.of_mem_zip mem).1 (became mem) with same | ⟨s, hs, twin⟩
    · exact .inl same
    · exact .inr ⟨List.mem_map_of_mem (f := Prod.fst) hs, (edited _ hs).kept (texts _ hs) twin⟩
  refine ⟨List.forall₂_iff_zip.2 ⟨length, fun {r r'} mem => ?_⟩, ?_⟩
  · rcases each r r' mem with ⟨rfl, -⟩ | ⟨first, kept, -⟩
    · exact ⟨.refl _, fun _ => rfl⟩
    · exact ⟨kept, fun out => absurd (sub.subset first) out⟩
  · have ids := numbered.nodup_rowids
    have firsts : (t.rows.zip rows).map Prod.fst = t.rows := List.map_fst_zip (le_of_eq length)
    have told : ((t.rows.zip rows).filter fun p => decide (p.1.data.text ≠ p.2.data.text))
        = (t.rows.zip rows).filter ((fun r : Row => decide (r.rowid ∈ (cs.map Prod.fst).map Row.rowid)) ∘ Prod.fst) := by
      refine List.filter_congr fun p mem => ?_
      rw [Function.comp, decide_eq_decide]
      rcases each p.1 p.2 mem with ⟨same, out⟩ | ⟨first, -, differs⟩
      · refine iff_of_false (by simp [same]) fun found => ?_
        obtain ⟨s, hs, number⟩ := List.mem_map.1 found
        have here := numbered.eq_of_rowid (within.subset (sub.subset hs)) (List.of_mem_zip mem).1 number
        exact out (here ▸ hs)
      · exact iff_of_true (Ne.symm differs) (List.mem_map_of_mem first)
    have counted := congrArg List.length (List.filter_map (f := Prod.fst) (p := fun r : Row =>
      decide (r.rowid ∈ (cs.map Prod.fst).map Row.rowid)) (l := t.rows.zip rows))
    rw [firsts, List.length_map] at counted
    have perm : ((cs.map Prod.fst).map Row.rowid).Perm ((t.rows.filter fun r =>
        decide (r.rowid ∈ (cs.map Prod.fst).map Row.rowid)).map Row.rowid) := by
      refine (List.perm_ext_iff_of_nodup ?_ ?_).2 fun n => ?_
      · exact ((sub.trans within).map Row.rowid).nodup ids
      · exact (List.filter_sublist.map Row.rowid).nodup ids
      · simp only [List.mem_map, List.mem_filter, decide_eq_true_eq]
        constructor
        · rintro ⟨r, ⟨c, hc, rfl⟩, rfl⟩
          exact ⟨c.1, ⟨stored c hc, c.1, ⟨c, hc, rfl⟩, rfl⟩, rfl⟩
        · rintro ⟨r, ⟨-, s, found, number⟩, rfl⟩
          exact ⟨s, found, number⟩
    rw [told, ← counted]
    simpa only [List.length_map] using perm.length_eq

end Table

namespace Database

/-- Some of the rows, counted, have got another body, and the others are left; nothing else has changed. -/
def Retexted (makes : Body → Body → Prop) (leaves : Body → Prop) (table : String) (rows : List Row) (count : Nat)
    (db after : Database) : Prop :=
  after.Numbered ∧ ∃ cs : List (Row × Row), count = cs.length ∧ (cs.map Prod.fst).Sublist rows
    ∧ (∀ c ∈ cs, c.1.Edited makes c.2) ∧ (∀ r ∈ rows, r ∉ cs.map Prod.fst → leaves r.data)
    ∧ EachRow table (Row.Became (cs.map Prod.snd)) db after

variable {db mid after : Database} {t : Table} {name : CollectionName} {r : Resolver} {makes : Body → Body → Prop}
  {leaves : Body → Prop}

/-- The changes of an update in place give rows the edited text, where it is another one. -/
theorem edited_of_edits {changes : Changes} {now : Int} {rows : List Row} {cs : List (Row × Row)}
    (makes_ : ∀ r ∈ rows, ∀ b : Body, b.text ≠ r.data.text → b.text = (changes.edit r.data.tree).text → makes r.data b)
    (leaves_ : ∀ r ∈ rows, (changes.edit r.data.tree).text = r.data.text → leaves r.data)
    (made : edits changes now rows = .ok cs) : (cs.map Prod.fst).Sublist rows ∧ (∀ c ∈ cs, c.1.Edited makes c.2)
      ∧ ∀ r ∈ rows, r ∉ cs.map Prod.fst → leaves r.data := by
  induction rows generalizing cs with
  | nil => cases made; simp
  | cons r rest ih =>
    unfold edits at made
    rw [List.foldrM_cons] at made
    obtain ⟨others, later, made⟩ := bind_eq_ok.1 made
    obtain ⟨makes_, makesRest⟩ := List.forall_mem_cons.1 makes_
    obtain ⟨leaves_, leavesRest⟩ := List.forall_mem_cons.1 leaves_
    obtain ⟨firsts, edited, left⟩ := ih makesRest leavesRest later
    simp only at made
    split at made
    · rename_i same
      cases made
      exact ⟨firsts.cons _, edited, List.forall_mem_cons.2 ⟨fun _ => leaves_ same, left⟩⟩
    · rename_i differs
      obtain ⟨s, state, made⟩ := bind_eq_ok.1 made
      cases made
      obtain ⟨b, read, rfl⟩ := withBody_eq_ok state
      have text := Body.ofText?_eq_some read
      refine ⟨firsts.cons_cons _, List.forall_mem_cons.2 ⟨⟨⟨b, now, rfl⟩, makes_ b (text ▸ differs) text⟩, edited⟩, ?_⟩
      exact List.forall_mem_cons.2 ⟨fun out => absurd List.mem_cons_self out,
        fun s mem out => left s mem (mt (List.mem_cons_of_mem _) out)⟩

theorem Numbered.retexted_change (numbered : db.Numbered) (found : db.table? name.text = some t) {changes : Changes}
    {p : Predicate} {cardinality : Cardinality} {now : Int} {n : Nat}
    (makes_ : ∀ r ∈ t.targets p cardinality, ∀ b : Body, b.text ≠ r.data.text →
      b.text = (changes.edit r.data.tree).text → makes r.data b)
    (leaves_ : ∀ r ∈ t.targets p cardinality, (changes.edit r.data.tree).text = r.data.text → leaves r.data)
    (made : db.run name r (.change changes p cardinality now) = .ok (n, after)) :
    Retexted makes leaves name.text (t.targets p cardinality) n db after := by
  obtain ⟨numbered', u, cs, found', changed, rfl, each⟩ := numbered.each_updateRows
    (fun t cs made => rewrites_of_edits (targets_sublist t p cardinality) made) (answer_of_run made)
  obtain rfl := Option.some.inj (found'.symm.trans found)
  obtain ⟨sub, edited, left⟩ := edited_of_edits makes_ leaves_ changed
  exact ⟨numbered', cs, rfl, sub, edited, left, each⟩

/-- A row that has not been touched is where it was. -/
theorem EachRow.mem_of_untouched {states : List Row} (each : EachRow name.text (Row.Became states) db after)
    (found : db.table? name.text = some t) {row : Row} (mem : row ∈ t.rows) (apart : ∀ s ∈ states, s.rowid ≠ row.rowid) :
    ∃ t', after.table? name.text = some t' ∧ row ∈ t'.rows := by
  obtain ⟨t', found', rows⟩ := each.rows t found
  refine ⟨t', found', ?_⟩
  obtain ⟨length, became⟩ := List.forall₂_iff_zip.1 rows
  rw [← List.map_fst_zip (le_of_eq length)] at mem
  obtain ⟨⟨s, s'⟩, pair, rfl⟩ := List.mem_map.1 mem
  rcases became pair with ⟨rfl, -⟩ | ⟨state, hs, number, -⟩
  · exact (List.of_mem_zip pair).2
  · exact absurd number (apart state hs)

/-- Writing the document of a row anew gives that row another body. -/
theorem Retexted.overwrite {rows : List Row} {count n : Nat} {row : Row} {text : String} {now : Int} (numbered : db.Numbered)
    (found : db.table? name.text = some t) (within : (rows ++ [row]).Sublist t.rows)
    (h : Retexted makes leaves name.text rows count db mid) (makes_ : ∀ b : Body, b.text = text → makes row.data b)
    (made : mid.run name r (.overwrite row.id text now) = .ok (n, after)) :
    Retexted makes leaves name.text (rows ++ [row]) (count + 1) db after := by
  obtain ⟨numbered', cs, rfl, sub, edited, left, each⟩ := h
  have ids := (within.map Row.rowid).nodup (numbered.tables t (mem_of_table? found).1).nodup_rowids
  rw [List.map_append, List.nodup_append] at ids
  have apart : ∀ s ∈ cs.map Prod.snd, s.rowid ≠ row.rowid := by
    intro s mem
    obtain ⟨c, hc, rfl⟩ := List.mem_map.1 mem
    rw [(edited c hc).rowid]
    exact ids.2.2 _ (List.mem_map_of_mem (sub.subset (List.mem_map_of_mem hc))) _ List.mem_cons_self
  have stored : row ∈ t.rows := within.subset (List.mem_append_right _ List.mem_cons_self)
  obtain ⟨t', found', mem⟩ := each.mem_of_untouched found stored apart
  have states : ∀ r s : Row, r.withBody text now = .ok s → s.rowid = r.rowid ∧ s.id = r.id ∧ s.promoted = r.promoted := by
    intro r s state
    obtain ⟨b, -, rfl⟩ := withBody_eq_ok state
    exact ⟨rfl, rfl, rfl⟩
  obtain ⟨numbered'', u, new, found'', changed, -, step⟩ :=
    numbered'.each_updateRows (fun t cs made => rewrites_of_mapM List.filter_sublist states made) (answer_of_run made)
  obtain rfl := Option.some.inj (found''.symm.trans found')
  rw [Collection.filter_id (numbered'.tables u (mem_of_table? found').1).nodup_ids mem, mapM_cons_eq_ok] at changed
  obtain ⟨c, rest, changed, none_, rfl⟩ := changed
  cases none_
  obtain ⟨s, state, eq⟩ := bind_eq_ok.1 changed
  cases eq
  obtain ⟨b, read, rfl⟩ := withBody_eq_ok state
  refine ⟨numbered'', cs ++ [(row, { row with data := b, updatedAt := now })], by simp, ?_, ?_, ?_, ?_⟩
  · rw [List.map_append]
    exact sub.append (.refl _)
  · exact List.forall_mem_append.2 ⟨edited, List.forall_mem_singleton.2 ⟨⟨b, now, rfl⟩,
      makes_ b (Body.ofText?_eq_some read)⟩⟩
  · intro s mem out
    rw [List.map_append, List.mem_append, not_or] at out
    rcases List.mem_append.1 mem with before | here
    · exact left s before out.1
    · exact absurd here out.2
  · rw [List.map_append]
    exact each.trans step fun _ _ _ => Row.Became.trans

/-- An insertion adds one row behind the others. -/
theorem Numbered.each_insertRow (numbered : db.Numbered) (found : db.table? name.text = some t) {id text : String}
    {now : Int} (made : db.insertRow name.text id text now = .ok after) :
    ∃ t' row, after.table? name.text = some t' ∧ t'.rows = t.rows ++ [row] ∧ row.id = id ∧ row.data.text = text
      ∧ ∀ other, sameName name.text other = false → after.table? other = db.table? other := by
  obtain ⟨u, found', made⟩ := bind_eq_ok.1 made
  rw [tableOf_eq_ok] at found'
  obtain rfl := Option.some.inj (found'.symm.trans found)
  obtain ⟨gs, ready, made⟩ := bind_eq_ok.1 made
  obtain ⟨b, valid, made⟩ := bind_eq_ok.1 made
  obtain ⟨_, -, made⟩ := bind_eq_ok.1 made
  simp only at made
  split at made
  · cases made
  · rename_i new
    simp only [List.any_eq_true, decide_eq_true_eq, not_exists, not_and] at new
    have added : (db.mapTable name.text (Table.addRow ⟨u.nextRowid, id, b, now, now, []⟩)).Numbered := by
      refine numbered.mapTable (Table.addRow_name _) fun v hv here => ?_
      obtain rfl := Option.some.inj ((numbered.tidy.table?_eq_some hv here).symm.trans found)
      exact (numbered.tables v hv).addRow rfl new
    obtain ⟨-, each⟩ := added.each_after (Numbered.on_of_ready found ready) made
    obtain ⟨t', found'', rows⟩ := each.rows _ (found_mapTable (Table.addRow_name _) found)
    obtain ⟨row, eq, filled⟩ := Row.filled_concat (fun r mem => Int.ne_of_lt (Table.lt_nextRowid mem)) rows
    have twin : row.Twin True ⟨u.nextRowid, id, b, now, now, []⟩ := by
      rcases filled with rfl | ⟨-, twin⟩
      · exact ⟨rfl, rfl, rfl, fun _ => ⟨rfl, rfl⟩⟩
      · exact twin
    refine ⟨t', row, found'', eq, twin.id, ?_, fun other apart => (each.others other apart).trans ?_⟩
    · rw [twin.data]
      exact Body.ofText?_eq_some (validBody_eq_ok valid)
    · rw [table?_mapTable (Table.addRow_name _), apart]
      rfl

end Database

/-! ## Updates -/

namespace Collection

/-- The new body that an update makes of a stored one: the engine has edited it in place, or the store has written it anew
because its value has changed. -/
inductive Makes (c : Collection) (u : Update) (b b' : Body) : Prop
  | edited {changes : Changes} (placed : u.inPlace? c.resolver = some changes) (fine : changes.complaint? b = none)
    (differs : b'.text ≠ b.text) (text : b'.text = (changes.edit b.tree).text)
  | rewritten {fields after : Fields} (placed : u.inPlace? c.resolver = none) (decoded : b.decode = .ok fields)
    (applied : u.apply fields = .ok after) (changed : Json.equal (.object after) (.object fields) = false)
    (text : b'.text = (Json.object after).text)

/-- An update leaves a stored body that it is about: the engine would edit it into the same text, or the value would not change. -/
inductive Leaves (c : Collection) (u : Update) (b : Body) : Prop
  | edited {changes : Changes} (placed : u.inPlace? c.resolver = some changes) (fine : changes.complaint? b = none)
    (same : (changes.edit b.tree).text = b.text)
  | rewritten {fields after : Fields} (placed : u.inPlace? c.resolver = none) (decoded : b.decode = .ok fields)
    (applied : u.apply fields = .ok after) (same : Json.equal (.object after) (.object fields) = true)

/-- The row holds the document that an upsert makes of the filter, under the identifier that it has, if any. -/
def Upserts (f : Filter) (u : Update) (row : Row) : Prop :=
  ∃ supplied body, u.synthesize f = .ok (supplied, body) ∧ row.data.text = (Json.object body).text
    ∧ ∀ id, supplied = some id → row.id = id

/-- What an update that has succeeded has made of a table: the rows stand where they stood, and of those that it was about
some have got new bodies. Behind them stands the row that it may have inserted, if it was about none. -/
structure Ran (c : Collection) (f : Filter) (u : Update) (cardinality : Cardinality) (result : UpdateResult) (t t' : Table) :
    Prop where
  matched : result.matched = (t.targets (c.predicate f) cardinality).length
  rows : ∃ (cs : List (Row × Row)) (kept added : List Row), t'.rows = kept ++ added ∧ result.modified = cs.length
    ∧ (cs.map Prod.fst).Sublist (t.targets (c.predicate f) cardinality) ∧ (∀ x ∈ cs, x.1.Edited (c.Makes u) x.2)
    ∧ (∀ r ∈ t.targets (c.predicate f) cardinality, r ∉ cs.map Prod.fst → c.Leaves u r.data)
    ∧ List.Forall₂ (Row.Became (cs.map Prod.snd)) t.rows kept ∧ added.map Row.id = result.upserted.toList
    ∧ ∀ row ∈ added, t.targets (c.predicate f) cardinality = [] ∧ Upserts f u row

variable {c : Collection} {db : Database} {t t' : Table} {f : Filter} {u : Update} {cardinality : Cardinality}

/-- A new body has another text, if what is written anew reads back. -/
theorem Makes.text_ne {b b' : Body} (h : c.Makes u b b') (reads : u.inPlace? c.resolver = none → u.ReadsBack b) :
    b'.text ≠ b.text := by
  cases h with
  | edited placed fine differs text => exact differs
  | rewritten placed decoded applied changed text => exact text ▸ (reads placed).text_ne decoded applied changed

/-- What the steps of an update that has succeeded have done to the rows it is about. -/
def Touched (c : Collection) (f : Filter) (u : Update) (cardinality : Cardinality) (db : Database) (counts : Nat × Nat)
    (after : Database) : Prop :=
  ∀ t, db.table? c.name.text = some t → counts.1 = (t.targets (c.predicate f) cardinality).length
    ∧ Retexted (c.Makes u) (c.Leaves u) c.name.text (t.targets (c.predicate f) cardinality) counts.2 db after

theorem yields_updateInPlace (numbered : db.Numbered) (found : db.table? c.name.text = some t) {changes : Changes}
    (placed : u.inPlace? c.resolver = some changes) :
    Yields db (c.updateInPlace f changes cardinality) (c.Touched f u cardinality db) := by
  have rest : complaintOf? changes (t.targets (c.predicate f) cardinality) = none → Yields db (do
      let matched ← c.execute (.countTargets (c.predicate f) cardinality)
      let modified ← c.execute (.change changes (c.predicate f) cardinality (← now))
      return (matched.toNat, modified)) (c.Touched f u cardinality db) := by
    intro fine
    have each : ∀ r ∈ t.targets (c.predicate f) cardinality, changes.complaint? r.data = none := List.findSome?_eq_none_iff.1 fine
    refine (Yields.number _).bind fun matched mid counted => ?_
    obtain ⟨⟨last, counted⟩, rfl⟩ := counted
    refine Yields.now.bind fun time mid same => ?_
    subst same
    refine (Yields.changed _).bind fun modified after changed => ?_
    refine (Yields.pure _).mono fun counts after' done u found' => ?_
    obtain ⟨rfl, rfl⟩ := done
    obtain rfl := Option.some.inj (found'.symm.trans found)
    replace counted := answer_of_run counted
    rw [answer, tableOf_eq_ok.2 found, ok_bind] at counted
    cases counted
    exact ⟨rfl, numbered.retexted_change found (fun r mem _ => .edited placed (each r mem))
      (fun r mem => .edited placed (each r mem)) changed⟩
  have complaint := complaintOf?_eq changes (t.targets (c.predicate f) cardinality)
  unfold updateInPlace
  simp only [Statement.guard?]
  by_cases empty : changes.guards.isEmpty = true
  · rw [List.isEmpty_iff.1 empty, List.getElem?_nil, Option.map_none, ite_self] at complaint
    simp only [empty, if_true]
    exact rest complaint
  simp only [empty, Bool.false_eq_true, if_false]
  refine (Yields.number _).bind fun code mid searched => ?_
  obtain ⟨⟨last, searched⟩, rfl⟩ := searched
  replace searched := answer_of_run searched
  rw [answer, tableOf_eq_ok.2 found, ok_bind] at searched
  cases searched
  by_cases known : 0 ≤ Table.guardCode changes.guards (t.targets (c.predicate f) cardinality)
  · rw [if_pos known] at complaint
    cases failed : changes.guards[(Table.guardCode changes.guards (t.targets (c.predicate f) cardinality)).toNat]? with
    | none =>
      rw [failed] at complaint
      simp only [known, if_true]
      exact rest complaint
    | some g =>
      simp only [known, if_true]
      exact (Yields.throw (R := fun _ _ => False) _).bind fun _ _ => False.elim
  · rw [if_neg known] at complaint
    simp only [known, if_false]
    exact rest complaint

/-- One document is written anew, or its value has not changed. -/
theorem yields_overwriteOne {mid : Database} {rows : List Row} {r : Row} {fields : Fields} (numbered : db.Numbered)
    (found : db.table? c.name.text = some t) (within : (rows ++ [r]).Sublist t.rows)
    (placed : u.inPlace? c.resolver = none) (decoded : r.data.decode = .ok fields) (time : Int) {count : Nat}
    (done : Retexted (c.Makes u) (c.Leaves u) c.name.text rows count db mid) :
    Yields mid (c.overwriteOne u time count (r.id, fields)) fun count =>
      Retexted (c.Makes u) (c.Leaves u) c.name.text (rows ++ [r]) count db := by
  refine (Yields.ofChange _).bind fun body mid' applied => ?_
  obtain ⟨applied, rfl⟩ := applied
  split
  · rename_i equal
    refine (Yields.pure _).mono fun n after same => ?_
    obtain ⟨rfl, rfl⟩ := same
    obtain ⟨numbered', cs, counted, sub, edited, left, each⟩ := done
    refine ⟨numbered', cs, counted, sub.trans (List.sublist_append_left _ _), edited, fun s mem out => ?_, each⟩
    rcases List.mem_append.1 mem with before | here
    · exact left s before out
    · exact List.mem_singleton.1 here ▸ .rewritten placed decoded applied equal
  · rename_i changed
    refine (Yields.changed _).bind fun n after written => ?_
    refine (Yields.pure _).mono fun n after same => ?_
    obtain ⟨rfl, rfl⟩ := same
    exact done.overwrite numbered found within (fun _ => .rewritten placed decoded applied (by simpa using changed)) written

/-- The documents are written anew one after another. -/
theorem yields_overwriteAll (numbered : db.Numbered) (found : db.table? c.name.text = some t)
    (placed : u.inPlace? c.resolver = none) (time : Int) {todo : List Row} {ds : List (String × Fields)}
    (read : List.Forall₂ (fun (r : Row) (d : String × Fields) => d.1 = r.id ∧ r.data.decode = .ok d.2) todo ds)
    {rows : List Row} (within : (rows ++ todo).Sublist t.rows) {mid : Database} {count : Nat}
    (done : Retexted (c.Makes u) (c.Leaves u) c.name.text rows count db mid) :
    Yields mid (ds.foldlM (c.overwriteOne u time) count) fun count =>
      Retexted (c.Makes u) (c.Leaves u) c.name.text (rows ++ todo) count db := by
  induction read generalizing rows mid count with
  | nil =>
    refine (Yields.pure _).mono fun n after same => ?_
    obtain ⟨rfl, rfl⟩ := same
    rwa [List.append_nil]
  | @cons r d todo ds here _ ih =>
    obtain ⟨id, fields⟩ := d
    obtain ⟨rfl, decoded⟩ := here
    rw [List.append_cons] at within ⊢
    rw [List.foldlM_cons]
    have first := (List.sublist_append_left (rows ++ [r]) todo).trans within
    exact (yields_overwriteOne numbered found first placed decoded time done).bind fun n after next => ih within next

theorem yields_overwriteMatching (numbered : db.Numbered) (found : db.table? c.name.text = some t)
    (placed : u.inPlace? c.resolver = none) :
    Yields db (c.overwriteMatching f u cardinality) (c.Touched f u cardinality db) := by
  refine (Yields.rows _).bind fun rows mid fetched => ?_
  obtain ⟨⟨last, fetched⟩, rfl⟩ := fetched
  replace fetched := answer_of_run fetched
  rw [answer, tableOf_eq_ok.2 found, ok_bind] at fetched
  cases fetched
  refine (Yields.ofStore _).bind fun ds mid read => ?_
  obtain ⟨read, rfl⟩ := read
  refine Yields.now.bind fun time mid same => ?_
  subst same
  have bodies := forall₂_of_mapM read
  have start : Retexted (c.Makes u) (c.Leaves u) c.name.text [] 0 mid mid :=
    ⟨numbered, [], rfl, .refl _, by simp, by simp, .refl Row.became_nil _⟩
  have within : ([] ++ t.targets (c.predicate f) cardinality).Sublist t.rows := targets_sublist t _ cardinality
  have all := yields_overwriteAll numbered found placed time
    (bodies.imp fun r d made => by
      obtain ⟨fields, decoded, eq⟩ := bind_eq_ok.1 made
      cases eq
      exact ⟨rfl, decoded⟩)
    within start
  refine all.bind fun n after written => (Yields.pure _).mono fun counts after' same u found' => ?_
  obtain ⟨rfl, rfl⟩ := same
  obtain rfl := Option.some.inj (found'.symm.trans found)
  exact ⟨rfl, written⟩

theorem yields_strategy (numbered : db.Numbered) (found : db.table? c.name.text = some t) :
    Yields db (c.strategy f u cardinality) (c.Touched f u cardinality db) := by
  unfold strategy
  split
  · exact yields_updateInPlace numbered found ‹_›
  · exact yields_overwriteMatching numbered found ‹_›

/-- An upsert inserts the document that it names. -/
theorem yields_upsert (numbered : db.Numbered) (found : db.table? c.name.text = some t) (f : Filter) (u : Update) :
    Yields db (c.upsert f u) fun id after => ∃ t' row, after.table? c.name.text = some t' ∧ t'.rows = t.rows ++ [row]
      ∧ row.id = id ∧ Upserts f u row ∧ ∀ other, sameName c.name.text other = false → after.table? other = db.table? other := by
  have inserts : ∀ (id : String) (body : Fields), Yields db (do c.insert ⟨id, body⟩; return id) fun named after =>
      named = id ∧ ∃ t' row, after.table? c.name.text = some t' ∧ t'.rows = t.rows ++ [row] ∧ row.id = id
        ∧ row.data.text = (Json.object body).text
        ∧ ∀ other, sameName c.name.text other = false → after.table? other = db.table? other := by
    intro id body
    refine Yields.bind (R := fun _ after => ∃ time, db.run c.name c.resolver (.insert id (Json.object body).text time) = .ok (1, after))
      (Yields.now.bind fun time mid same => ?_) fun _ after written => ?_
    · subst same
      refine (Yields.changed _).bind fun n after written => (Yields.pure _).mono fun _ last same => ?_
      obtain ⟨-, rfl⟩ := same
      obtain ⟨made, inserted, eq⟩ := bind_eq_ok.1 (answer_of_run written)
      cases eq
      exact ⟨time, written⟩
    · obtain ⟨time, written⟩ := written
      obtain ⟨made, inserted, eq⟩ := bind_eq_ok.1 (answer_of_run written)
      cases eq
      refine (Yields.pure _).mono fun named last same => ?_
      obtain ⟨rfl, rfl⟩ := same
      exact ⟨rfl, numbered.each_insertRow found inserted⟩
  refine (Yields.ofStore _).bind fun (supplied, body) mid made => ?_
  obtain ⟨made, rfl⟩ := made
  cases supplied with
  | some id =>
    refine (inserts id body).mono fun named after done => ?_
    obtain ⟨rfl, t', row, found', rows, same, text, others⟩ := done
    exact ⟨t', row, found', rows, same, ⟨_, body, made, text, fun id eq => same.trans (Option.some.inj eq)⟩, others⟩
  | none =>
    refine Yields.nextId.bind fun id mid same => ?_
    subst same
    refine (inserts id body).mono fun named after done => ?_
    obtain ⟨rfl, t', row, found', rows, same, text, others⟩ := done
    exact ⟨t', row, found', rows, same, ⟨_, body, made, text, nofun⟩, others⟩

/-- An update that succeeds gives rows that it is about other bodies and inserts at most one row; it changes no other table. -/
theorem ran_of_runUpdate {w v : Workspace} {result : UpdateResult} (orderly : w.Orderly) (numbered : w.current.Numbered)
    (found : w.current.table? c.name.text = some t) {wanted : Bool}
    (made : (c.runUpdate f u cardinality wanted).result w = (.ok result, v)) :
    ∃ t', v.current.table? c.name.text = some t' ∧ c.Ran f u cardinality result t t'
      ∧ ∀ other, sameName c.name.text other = false → v.current.table? other = w.current.table? other := by
  rw [runUpdate_eq] at made
  have level : Yields w.current (c.strategy f u cardinality >>= c.insertMissing f u wanted) fun result after =>
      ∃ t', after.table? c.name.text = some t' ∧ c.Ran f u cardinality result t t'
        ∧ ∀ other, sameName c.name.text other = false → after.table? other = w.current.table? other := by
    refine (yields_strategy numbered found).bind fun (matched, modified) mid touched => ?_
    obtain ⟨rfl, numbered', cs, rfl, sub, edited, left, each⟩ := touched t found
    obtain ⟨kept, found', became⟩ := each.rows t found
    have inserted : Yields mid (if (decide ((t.targets (c.predicate f) cardinality).length = 0) && wanted) = true then
        some <$> c.upsert f u else pure none) fun upserted after => ∃ t' added, after.table? c.name.text = some t'
          ∧ t'.rows = kept.rows ++ added ∧ added.map Row.id = upserted.toList
          ∧ (∀ row ∈ added, t.targets (c.predicate f) cardinality = [] ∧ Upserts f u row)
          ∧ ∀ other, sameName c.name.text other = false → after.table? other = mid.table? other := by
      split
      · rename_i missing
        rw [Bool.and_eq_true, decide_eq_true_eq] at missing
        refine (yields_upsert numbered' found' f u).map _ fun id after done => ?_
        obtain ⟨t', row, found'', rows, rfl, upserts, others⟩ := done
        exact ⟨t', [row], found'', rows, rfl,
          List.forall_mem_singleton.2 ⟨List.length_eq_zero_iff.1 missing.1, upserts⟩, others⟩
      · refine (Yields.pure _).mono fun upserted after same => ?_
        obtain ⟨rfl, rfl⟩ := same
        exact ⟨kept, [], found', (List.append_nil _).symm, rfl, by simp, fun _ _ => rfl⟩
    refine inserted.bind fun upserted after done => (Yields.pure _).mono fun result last same => ?_
    obtain ⟨rfl, rfl⟩ := same
    obtain ⟨t', added, found'', rows', ids, upserts, others⟩ := done
    exact ⟨t', found'', ⟨rfl, cs, kept.rows, added, rows', rfl, sub, edited, left, became, ids, upserts⟩, fun other apart =>
      (others other apart).trans (each.others other apart)⟩
  exact (level.result_transaction orderly made).2.2

/-- An update that succeeds has its table, and the engine takes the search for the rows that it is about. -/
theorem takes_of_runUpdate {w v : Workspace} {result : UpdateResult} {wanted : Bool} (orderly : w.Orderly)
    (made : (c.runUpdate f u cardinality wanted).result w = (.ok result, v)) :
    (∃ t, w.current.table? c.name.text = some t) ∧ w.current.Takes c.name (c.predicate f) := by
  by_contra lacks
  have table : ∀ {t : Table}, w.current.tableOf c.name.text = .ok t → ∃ t, w.current.table? c.name.text = some t :=
    fun there => ⟨_, tableOf_eq_ok.1 there⟩
  have counts : ∀ g : Int → Action (Nat × Nat), Yields w.current
      (c.execute (.countTargets (c.predicate f) cardinality) >>= g) fun _ _ => False := fun g => by
    refine (Yields.number _).bind fun n mid ran => ?_
    obtain ⟨⟨last, ran⟩, -⟩ := ran
    obtain ⟨t, there, -⟩ := bind_eq_ok.1 (answer_of_run ran)
    exact (lacks ⟨table there, .of_countTargets ran⟩).elim
  -- each strategy starts with a statement that shows it
  have stops : Yields w.current (c.strategy f u cardinality) fun _ _ => False := by
    unfold strategy
    split
    · unfold updateInPlace
      simp only
      split
      · rename_i search guarded
        unfold Statement.guard? at guarded
        split at guarded
        · cases guarded
        · cases guarded
          refine (Yields.number _).bind fun n mid ran => ?_
          obtain ⟨⟨last, ran⟩, -⟩ := ran
          obtain ⟨t, there, -⟩ := bind_eq_ok.1 (answer_of_run ran)
          exact (lacks ⟨table there, .of_guard ran⟩).elim
      · exact counts _
    · refine (Yields.rows _).bind fun rows mid ran => ?_
      obtain ⟨⟨last, ran⟩, -⟩ := ran
      obtain ⟨t, there, -⟩ := bind_eq_ok.1 (answer_of_run ran)
      exact (lacks ⟨table there, .of_fetch ran⟩).elim
  rw [runUpdate_eq] at made
  have none_ : Yields w.current (c.strategy f u cardinality >>= c.insertMissing f u wanted) fun _ _ => False :=
    stops.bind fun _ _ => False.elim
  exact (none_.result_transaction orderly made).2.2

/-- Every row that the update was about is still there, with the body that the update makes of its own or leaves. -/
theorem Ran.treated {result : UpdateResult} (h : c.Ran f u cardinality result t t') (numbered : t.Numbered) {r : Row}
    (target : r ∈ t.targets (c.predicate f) cardinality) :
    ∃ r' ∈ t'.rows, r'.id = r.id ∧ (c.Makes u r.data r'.data ∨ r'.data = r.data ∧ c.Leaves u r.data) := by
  obtain ⟨-, cs, kept, added, rows, -, sub, edited, left, became, -⟩ := h
  have within := targets_sublist t (c.predicate f) cardinality
  obtain ⟨length, pairs⟩ := List.forall₂_iff_zip.1 became
  have mem := within.subset target
  rw [← List.map_fst_zip (le_of_eq length)] at mem
  obtain ⟨⟨r, r'⟩, pair, rfl⟩ := List.mem_map.1 mem
  have stored : ∀ x ∈ cs, x.1 ∈ t.rows := fun x hx => within.subset (sub.subset (List.mem_map_of_mem hx))
  refine ⟨r', rows ▸ List.mem_append_left _ (List.of_mem_zip pair).2, ?_⟩
  rcases numbered.became_cases stored edited (List.of_mem_zip pair).1 (pairs pair) with ⟨rfl, out⟩ | ⟨s, hs, twin⟩
  · exact ⟨rfl, .inr ⟨rfl, left _ target out⟩⟩
  · exact ⟨twin.id.trans (edited _ hs).id, .inl (twin.data ▸ (edited _ hs).made)⟩

/-- What an update makes of a table, it counts, if what it writes anew reads back. -/
theorem Ran.updated {result : UpdateResult} (h : c.Ran f u cardinality result t t') (numbered : t.Numbered)
    (reads : u.inPlace? c.resolver = none → ∀ r ∈ t.targets (c.predicate f) cardinality, u.ReadsBack r.data) :
    t.Updated (t.targets (c.predicate f) cardinality) result t' := by
  obtain ⟨matched, cs, kept, added, rows, modified, sub, edited, -, became, ids, -⟩ := h
  have texts : ∀ x ∈ cs, x.2.data.text ≠ x.1.data.text := fun x mem =>
    (edited x mem).made.text_ne fun placed => reads placed _ (sub.subset (List.mem_map_of_mem mem))
  obtain ⟨each, counted⟩ := numbered.kept_of_became (targets_sublist t _ _) sub edited texts became
  exact ⟨matched, kept, added, rows, each, modified.trans counted, ids⟩

/-- An update that succeeds touches the rows that it is about, counts them and those it has changed, and inserts at most
one row. -/
theorem updated_of_runUpdate {w v : Workspace} {result : UpdateResult} (orderly : w.Orderly) (numbered : w.current.Numbered)
    (found : w.current.table? c.name.text = some t)
    (reads : u.inPlace? c.resolver = none → ∀ r ∈ t.targets (c.predicate f) cardinality, u.ReadsBack r.data) {wanted : Bool}
    (made : (c.runUpdate f u cardinality wanted).result w = (.ok result, v)) :
    ∃ t', v.current.table? c.name.text = some t' ∧ t.Updated (t.targets (c.predicate f) cardinality) result t'
      ∧ ∀ other, sameName c.name.text other = false → v.current.table? other = w.current.table? other := by
  obtain ⟨t', found', ran, others⟩ := ran_of_runUpdate orderly numbered found made
  exact ⟨t', found', ran.updated (numbered.tables t (mem_of_table? found).1) reads, others⟩

end Collection

end Dossier
