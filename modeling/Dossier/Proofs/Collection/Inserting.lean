import Dossier.Proofs.Collection.Selecting
import Dossier.Proofs.Collection.Touching

/-!
# What an insertion leaves, and what its identifier selects

`Collection.Inserted`: an insertion that succeeds puts one row behind the others of the collection's table
(`Collection.inserted_of_insertOne`). `Collection.Identifies`: a value selects that row alone as an identifier, so reading,
updating and deleting by it are about that row (`Collection.Inserted.identifies`).
-/

namespace Dossier

open Dossier.Action Database Outcome Text

/-- A statement that has written met no lock, and the next one meets none. -/
theorem Action.free_of_write {α : Type} {f : Database → Except EngineError (α × Database)} {a : α} {v w : Workspace}
    (made : (write f).result w = (.ok a, v)) : ¬ w.Barred ∧ ¬ v.Barred := by
  refine ⟨fun barred => ?_, fun ⟨idle, locked⟩ => ?_⟩
  · rw [write_of_barred barred] at made
    cases made
  · rw [result_write] at made
    split at made
    · rename_i a' connection wrote
      cases made
      unfold Connection.write at wrote
      split at wrote
      · split at wrote
        · cases wrote
        · rename_i free
          obtain ⟨p, -, eq⟩ := bind_eq_ok.1 wrote
          cases eq
          exact free locked
      · simp only at wrote
        split at wrote
        · obtain ⟨p, -, eq⟩ := bind_eq_ok.1 wrote
          cases eq
          cases idle
        · cases wrote
    · cases made

/-- A body that is not too deep decodes to what its text reads back as. -/
theorem Body.exists_decode_of_readsBack {b : Body} {fields : Fields} (text : b.text = (Json.object fields).text)
    (shallow : (Json.object fields).tree.depth ≤ Tree.decodeDepth) (reads : (Json.object fields).readsBack = true) :
    ∃ after, b.decode = .ok after ∧ (Json.object fields).equal (.object after) = true := by
  have depth : b.tree.depth ≤ Tree.decodeDepth := by
    rw [(b.tree_eq_asRead (Json.isWritten_tree _) text).1, Tree.depth_asRead]
    exact shallow
  rw [Json.readsBack, ← text, b.reads, Option.bind_some, Option.any_eq_true] at reads
  obtain ⟨j, read, same⟩ := reads
  cases j with
  | object after =>
    refine ⟨after, ?_, same⟩
    rw [decode, Tree.decode?, if_pos depth, read]
  | null | bool | number | string | array => simp [Json.equal] at same

/-- A document that brings an identifier is split into it and the rest. -/
theorem NewDocument.supplied_of_split {fields body : Fields} {value : Json} {supplied : Option Json}
    (made : split (.object fields) = .ok (supplied, body)) (brought : value ∈ NewDocument.supplied fields) :
    supplied = some value ∧ body = bodyOf fields := by
  cases given : NewDocument.supplied fields with
  | nil =>
    rw [given] at brought
    cases brought
  | cons first rest =>
    cases rest with
    | nil =>
      obtain rfl := List.mem_singleton.1 (given ▸ brought)
      simp only [split, given] at made
      split at made
      · cases made
      · cases made
        exact ⟨rfl, rfl⟩
    | cons second others =>
      simp only [split, given] at made
      cases made

namespace Collection

/-- An insertion has put a row with the identifier and the body behind the rows of the collection's table. -/
structure Inserted (c : Collection) (id : String) (body : Fields) (row : Row) (w v : Workspace) : Prop where
  kept : v.Kept w
  free : ¬ v.Barred
  numbered : v.current.Numbered
  named : row.id = id
  text : row.data.text = (Json.object body).text
  rows : ∃ t t', w.current.table? c.name.text = some t ∧ v.current.table? c.name.text = some t' ∧ t'.rows = t.rows ++ [row]

variable {c : Collection} {w v : Workspace} {id : String} {body fields : Fields} {value : Json} {row : Row}

theorem inserted_of_insert (orderly : w.Orderly) (numbered : w.current.Numbered)
    (made : (c.insert ⟨id, body⟩).result w = (.ok (), v)) : ∃ row, c.Inserted id body row w v := by
  obtain ⟨n, written⟩ : ∃ n, (write fun db => db.run c.name c.resolver (.insert id (Json.object body).text w.clock.now)).result
      { w with clock := w.clock.rest } = (.ok n, v) := by
    rw [insert, result_bind, result_now] at made
    simp only at made
    rw [result_bind] at made
    split at made
    · rename_i n u ran
      cases made
      exact ⟨n, ran⟩
    · cases made
  obtain ⟨free, free'⟩ := free_of_write written
  have orderly' : ({ w with clock := w.clock.rest } : Workspace).Orderly := orderly
  rcases write_of_free orderly' free fun db => db.run c.name c.resolver (.insert id (Json.object body).text w.clock.now) with
    ⟨e, -, failed⟩ | ⟨n, db, ran, -, kept, current⟩
  · rw [written] at failed
    cases failed
  · rw [written] at kept current
    obtain rfl : v.current = db := current
    have after := numbered.run ran
    obtain ⟨db, inserted, eq⟩ := bind_eq_ok.1 (answer_of_run ran)
    cases eq
    obtain ⟨t, found, -⟩ := bind_eq_ok.1 inserted
    rw [tableOf_eq_ok] at found
    obtain ⟨t', row, found', rows, named, text, -⟩ := numbered.each_insertRow found inserted
    exact ⟨row, ⟨kept.orderly, kept.base, kept.unlocked⟩, free', after, named, text, t, t', found, found', rows⟩

/-- A document that brings an identifier is inserted under it. -/
theorem inserted_of_insertOne (orderly : w.Orderly) (numbered : w.current.Numbered)
    (brought : value ∈ NewDocument.supplied fields) (made : (c.insertOne (.object fields)).result w = (.ok id, v)) :
    identifierOf value = .ok id ∧ ∃ row, c.Inserted id (NewDocument.bodyOf fields) row w v := by
  rw [insertOne, prepare, result_bind, result_bind, result_ofStore] at made
  cases split : NewDocument.split (.object fields) with
  | error e =>
    rw [split] at made
    cases made
  | ok parts =>
    obtain ⟨supplied, body⟩ := parts
    obtain ⟨rfl, rfl⟩ := NewDocument.supplied_of_split split brought
    rw [split] at made
    simp only [result_bind, result_ofStore] at made
    cases named : identifierOf value with
    | error e =>
      rw [named] at made
      cases made
    | ok name =>
      rw [named] at made
      simp only [result_pure] at made
      split at made
      · rename_i u ran
        cases made
        exact ⟨rfl, inserted_of_insert orderly numbered ran⟩
      · cases made

/-! ## Updates about one row -/

/-- An update that is about one row changes no other, and leaves it its number and its identifier. -/
theorem Ran.of_target {t t' : Table} {f : Filter} {u : Update} {result : UpdateResult} (ran : c.Ran f u .one result t t')
    (numbered : t.Numbered) (only : t.select (c.predicate f) = [row]) : result.matched = 1 ∧ result.upserted = none
      ∧ List.Forall₂ (fun r r' => (r ≠ row → r' = r) ∧ r'.rowid = r.rowid ∧ r'.id = r.id) t.rows t'.rows := by
  obtain ⟨matched, cs, kept, added, rows, -, sub, edited, -, became, ids, upserts⟩ := ran
  have targets : t.targets (c.predicate f) .one = [row] := by rw [Table.targets, only]; rfl
  rw [targets] at matched sub upserts
  obtain rfl : added = [] := List.eq_nil_iff_forall_not_mem.2 fun r mem => by cases (upserts r mem).1
  rw [List.append_nil] at rows
  have selected : row ∈ t.rows := (List.mem_filter.1 (only ▸ List.mem_singleton_self row : row ∈ t.select _)).1
  have firsts : ∀ x ∈ cs, x.1 = row := fun x mem => List.mem_singleton.1 (sub.subset (List.mem_map_of_mem mem))
  refine ⟨matched, Option.toList_eq_nil_iff.1 ids.symm, rows ▸ ?_⟩
  obtain ⟨length, pairs⟩ := List.forall₂_iff_zip.1 became
  refine List.forall₂_iff_zip.2 ⟨length, fun {r r'} mem => ?_⟩
  rcases numbered.became_cases (fun x hx => firsts x hx ▸ selected) edited (List.of_mem_zip mem).1 (pairs mem)
    with ⟨rfl, -⟩ | ⟨s, hs, twin⟩
  · exact ⟨fun _ => rfl, rfl, rfl⟩
  · exact ⟨fun other => absurd (firsts _ hs) other, twin.rowid.trans (edited _ hs).rowid, twin.id.trans (edited _ hs).id⟩

/-! ## Identifiers -/

/-- As an identifier the value selects the last row of the collection alone, which stands behind the others and holds the body
under that identifier: reading gives its document, an update is about it and inserts nothing, and deleting takes it out. -/
structure Identifies (c : Collection) (value : Json) (id : String) (body : Fields) (others : List Row) (row : Row)
    (v : Workspace) : Prop where
  named : row.id = id
  text : row.data.text = (Json.object body).text
  rows : ∃ t, v.current.table? c.name.text = some t ∧ t.rows = others ++ [row]
  reads : (Json.object body).tree.depth ≤ Tree.decodeDepth → (Json.object body).readsBack = true →
    ∃ d, row.document = .ok d ∧ (Json.object body).equal (.object d.body) = true
  whole : (Json.object body).tree.depth ≤ Tree.decodeDepth → (Json.object body).isPlain = true →
    ∃ d, row.document = .ok d ∧ d.body = body
  findOne : ((c.findOne (.identifying value)).result v).1 = row.document.map some
  selects : ∀ d, row.document = .ok d → d.id = id ∧ c.Selects v (.identifying value) [d]
  updates : ∀ change upsert result u, (c.updateOne (.identifying value) change upsert).result v = (.ok result, u) →
    result.matched = 1 ∧ result.upserted = none
      ∧ ∃ t row', u.current.table? c.name.text = some t ∧ t.rows = others ++ [row'] ∧ row'.rowid = row.rowid ∧ row'.id = id
  deletes : ∃ u t, (c.delete (.identifying value) .one).result v = (.ok 1, u) ∧ u.current.table? c.name.text = some t
    ∧ t.rows = others

/-- Rows that keep their places, all but the last unchanged. -/
theorem last_of_forall₂ {others rows : List Row} {P : Row → Row → Prop} (apart : ∀ r ∈ others, r ≠ row)
    (each : List.Forall₂ (fun r r' => (r ≠ row → r' = r) ∧ P r r') (others ++ [row]) rows) :
    ∃ row', rows = others ++ [row'] ∧ P row row' := by
  induction others generalizing rows with
  | nil =>
    obtain ⟨row', rest, here, none_, rfl⟩ := List.forall₂_cons_left_iff.1 each
    cases none_
    exact ⟨row', rfl, here.2⟩
  | cons r others ih =>
    obtain ⟨r', rest, here, later, rfl⟩ := List.forall₂_cons_left_iff.1 each
    obtain ⟨differs, apart⟩ := List.forall_mem_cons.1 apart
    obtain ⟨row', rfl, last⟩ := ih apart later
    exact ⟨row', congrArg (· :: _) (here.1 differs), last⟩

/-- An update that succeeds has been accepted. -/
theorem parse_of_updateOne {filter change : Json} {f : Filter} {upsert : Bool} {result : UpdateResult}
    (parsed : Filter.parse filter = .ok f) (made : (c.updateOne filter change upsert).result w = (.ok result, v)) :
    ∃ u, Update.parse change = .ok u := by
  cases accepted : Update.parse change with
  | ok u => exact ⟨u, rfl⟩
  | error e =>
    rw [updateOne, result_bind, result_readFilter parsed] at made
    simp only at made
    rw [result_bind, result_ofRequest, accepted] at made
    cases made

/-- What an insertion has put into the collection is what its identifier selects. -/
theorem Inserted.identifies (h : c.Inserted id body row w v) (named : identifierOf value = .ok id)
    (signed : ∀ n, value = .number (.whole n) → n.isSigned = true) {t : Table}
    (found : w.current.table? c.name.text = some t) : c.Identifies value id body t.rows row v := by
  obtain ⟨t₀, t', found₀, found', rows⟩ := h.rows
  obtain rfl := Option.some.inj (found₀.symm.trans found)
  have parsed := Filter.parse_identifying named
  have numbered := h.numbered.tables t' (mem_of_table? found').1
  have orderly := h.kept.orderly
  have mem : row ∈ t'.rows := rows ▸ List.mem_append_right _ List.mem_cons_self
  have apart : ∀ r ∈ t₀.rows, r ≠ row := by
    have distinct := numbered.nodup_ids
    rw [rows, List.map_append, List.nodup_append] at distinct
    exact fun r earlier eq => distinct.2.2 _ (List.mem_map_of_mem earlier) _ List.mem_cons_self (congrArg Row.id eq)
  have only : t'.select (c.predicate (.identifying value)) = [row] := by
    rw [← filter_id numbered.nodup_ids mem, h.named]
    exact List.filter_congr fun r _ => Filter.isTrue_identifying named signed c.resolver r
  have selects (d : Document) (document : row.document = .ok d) : (t'.select (c.predicate (.identifying value))).mapM Row.document
      = .ok [d] := by
    rw [only]
    exact mapM_cons_eq_ok.2 ⟨d, [], document, rfl, rfl⟩
  refine ⟨h.named, h.text, ⟨t', found', rows⟩, fun shallow reads => ?_, fun shallow plain => ?_, ?_,
    fun d document => ⟨?_, ?_⟩, fun change upsert result u made => ?_, ?_⟩
  · obtain ⟨after, decoded, same⟩ := Body.exists_decode_of_readsBack h.text shallow reads
    exact ⟨⟨row.id, after, row.createdAt, row.updatedAt⟩, by rw [Row.document, decoded]; rfl, same⟩
  · have tree := Body.tree_of_text (Json.isFinite_of_isPlain _ plain) h.text
    have decoded := Body.decode_of_text plain h.text (tree ▸ shallow)
    exact ⟨⟨row.id, body, row.createdAt, row.updatedAt⟩, by rw [Row.document, decoded]; rfl, rfl⟩
  · rw [findOne_eq orderly found' parsed (.of_fits Filter.fits_compare), only]
    cases document : row.document with
    | ok d =>
      rw [List.take_succ_cons, List.take_zero, mapM_cons_eq_ok.2 ⟨d, [], document, rfl, rfl⟩]
      rfl
    | error e =>
      rw [List.take_succ_cons, List.mapM_cons, document]
      rfl
  · exact (Row.document_eq_ok document).1.trans h.named
  · exact selects_of_decodes orderly found' parsed (.of_fits Filter.fits_compare) (selects d document)
  · obtain ⟨accepted, read⟩ := parse_of_updateOne parsed made
    have ran : (c.runUpdate (.identifying value) accepted .one upsert).result v = (.ok result, u) :=
      (result_readUpdate parsed read _).symm.trans made
    obtain ⟨t₁, found₁, ran, -⟩ := ran_of_runUpdate orderly h.numbered found' ran
    obtain ⟨matched, upserted, each⟩ := ran.of_target numbered only
    obtain ⟨row', rows', rowid, same⟩ := last_of_forall₂ apart (rows ▸ each)
    exact ⟨matched, upserted, t₁, row', found₁, rows', rowid, same.trans h.named⟩
  · have fits : (Statement.delete (c.predicate (.identifying value)) .one).Fits := Filter.fits_delete_compare
    obtain ⟨u, deleted, -, current⟩ := delete_eq orderly h.free found' parsed fits
    have targets : t'.targets (c.predicate (.identifying value)) .one = [row] := by rw [Table.targets, only]; rfl
    rw [targets] at deleted current
    have found₁ := found_deleteRows found' [row.rowid]
    refine ⟨u, _, deleted, current ▸ found₁, ?_⟩
    have others : t₀.rows.filter (fun r => !([row.rowid].contains r.rowid)) = t₀.rows := by
      refine List.filter_eq_self.2 fun r earlier => ?_
      have stays : r.rowid ≠ row.rowid := fun same =>
        apart r earlier (numbered.eq_of_rowid (rows ▸ List.mem_append_left _ earlier) mem same)
      simpa using stays
    show t'.rows.filter (fun r => !([row.rowid].contains r.rowid)) = t₀.rows
    rw [rows, List.filter_append, others]
    simp

end Collection

end Dossier
