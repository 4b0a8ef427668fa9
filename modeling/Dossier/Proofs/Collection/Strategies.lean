import Dossier.Proofs.Database.Twins
import Dossier.Proofs.Session.Twin
import Dossier.Proofs.Update.InPlace

/-!
# The two ways to make changes

On documents of which the changes make the same either way (`Changes.Settled`), an update in place and one that
overwrites the changed documents end alike and leave the same database:
`Collection.runs_updateInPlace` and `Collection.runs_overwriteMatching` give the same outcome for both.
-/

namespace Dossier

open Outcome

/-! ## One document -/

/-- A stored body that the engine changes as the store does. It is the compact text of the document that it is read as,
the engine takes the sums as the store does, and it can read the text of the changed document. -/
structure Changes.Regular (c : Changes) (b : Body) (fields : Fields) : Prop where
  decoded : b.decode = .ok fields
  finite : (Json.object fields).isFinite = true
  stored : b.text = (Json.object fields).text
  sums : ∀ s ∈ c.steps, s.Alike fields
  readable : ∀ after, (Update.change c).apply fields = .ok after → (Body.ofText? (Json.object after).text).isSome

/-- A stored body of which changes make the same either way: besides, its document and the changed one have equal values
exactly if they have one text. -/
structure Changes.Settled (c : Changes) (b : Body) (fields : Fields) : Prop extends c.Regular b fields where
  unchanged : ∀ after, (Update.change c).apply fields = .ok after →
    (Json.equal (.object after) (.object fields) = true ↔ (Json.object after).text = b.text)

namespace Changes

/-- The error of the first guard that a body violates. -/
def complaint? (c : Changes) (b : Body) : Option ApplyError :=
  (c.guards.find? fun g => (g.holds b.tree).isTrue).map Guard.failure

theorem guardCode?_eq (guards : List Guard) (body : Tree) :
    (Table.guardCode? guards body).bind (guards[·]?) = guards.find? fun g => (g.holds body).isTrue := by
  unfold Table.guardCode?
  induction guards with
  | nil => rfl
  | cons g rest ih =>
    rw [List.findIdx?_cons, List.find?_cons]
    cases (g.holds body).isTrue with
    | true => rfl
    | false =>
      simp only [Bool.false_eq_true, if_false]
      rw [← ih]
      cases rest.findIdx? fun g => (g.holds body).isTrue <;> rfl

variable {c : Changes} {b : Body} {fields : Fields}

/-- Applying changes fails with the complaint, or makes the document that the engine makes. -/
theorem Regular.apply (h : c.Regular b fields) (apart : conflict? c.paths = .none) : match c.complaint? b with
    | some e => (Update.change c).apply fields = .error e
    | .none => ∃ after, (Update.change c).apply fields = .ok after ∧ (c.edit b.tree).text = (Json.object after).text := by
  have refined := Update.refines_of_alike apart (Body.tree_of_text h.finite h.stored) h.sums
  unfold complaint?
  cases found : c.guards.find? fun g => (g.holds b.tree).isTrue with
  | some g => rw [found] at refined; exact refined
  | none =>
    rw [found] at refined
    obtain ⟨after, applied, edited⟩ := refined
    exact ⟨after, applied, by rw [edited]; rfl⟩

/-- A changed document can be written. -/
theorem Regular.exists_state {r : Row} {after : Fields} (h : c.Regular r.data fields)
    (applied : (Update.change c).apply fields = .ok after) (time : Int) :
    ∃ r', r.withBody (Json.object after).text time = .ok r' := by
  obtain ⟨b, readable⟩ := Option.isSome_iff_exists.1 (h.readable after applied)
  refine ⟨{ r with data := b, updatedAt := time }, ?_⟩
  unfold Row.withBody Database.validBody
  rw [readable]
  rfl

end Changes

/-! ## Rows of a table -/

namespace Database

variable {c : Changes} {time : Int} {rows : List Row}

/-- The first complaint about any of the rows. -/
def complaintOf? (c : Changes) (rows : List Row) : Option ApplyError := rows.findSome? fun r => c.complaint? r.data

/-- The engine changes the rows as the store does. -/
def AllRegular (c : Changes) (rows : List Row) : Prop := ∀ r ∈ rows, ∃ fields, c.Regular r.data fields

/-- Of the rows changes make the same either way. -/
def AllSettled (c : Changes) (rows : List Row) : Prop := ∀ r ∈ rows, ∃ fields, c.Settled r.data fields

/-- The search for a violated guard tells the first complaint. -/
theorem complaintOf?_eq (c : Changes) (rows : List Row) : complaintOf? c rows =
    if 0 ≤ Table.guardCode c.guards rows then (c.guards[(Table.guardCode c.guards rows).toNat]?).map Guard.failure else none := by
  have first : complaintOf? c rows
      = (rows.findSome? fun row => Table.guardCode? c.guards row.data.tree).bind fun n => (c.guards[n]?).map Guard.failure := by
    unfold complaintOf? Changes.complaint?
    induction rows with
    | nil => rfl
    | cons r rest ih =>
      rw [List.findSome?_cons, List.findSome?_cons, ← Changes.guardCode?_eq]
      cases code : Table.guardCode? c.guards r.data.tree with
      | none => exact ih
      | some n =>
        have within : n < c.guards.length := by
          obtain ⟨bound, -⟩ := List.findIdx?_eq_some_iff_findIdx_eq.1 code
          exact bound
        simp [List.getElem?_eq_getElem within]
  rw [first, Table.guardCode]
  cases rows.findSome? fun row => Table.guardCode? c.guards row.data.tree with
  | none => rfl
  | some n => simp

/-- The changed rows of an update in place can be made. -/
theorem exists_edits (apart : Changes.conflict? c.paths = none) (regular : AllRegular c rows) (fine : complaintOf? c rows = none)
    (time : Int) : ∃ cs, edits c time rows = .ok cs := by
  induction rows with
  | nil => exact ⟨[], rfl⟩
  | cons r rest ih =>
    unfold complaintOf? at fine
    rw [List.findSome?_cons] at fine
    obtain ⟨fields, here⟩ := regular r List.mem_cons_self
    have applied := here.apply apart
    cases first : c.complaint? r.data with
    | some e => rw [first] at fine; cases fine
    | none =>
      rw [first] at fine applied
      obtain ⟨cs, made⟩ := ih (fun s mem => regular s (List.mem_cons_of_mem _ mem)) fine
      obtain ⟨after, applied, text⟩ := applied
      obtain ⟨r', state⟩ := here.exists_state applied time
      unfold edits at made ⊢
      rw [List.foldrM_cons, made, ok_bind]
      simp only [text, state]
      split
      · exact ⟨cs, rfl⟩
      · exact ⟨(r, r') :: cs, rfl⟩

end Database

/-! ## The strategies -/

namespace Collection

open Dossier.Action Database

variable {db : Database} {name : CollectionName} {resolver : Resolver} {t : Table} {f : Filter} {c : Changes}
  {cardinality : Cardinality} {clock next : Clock} {time : Int}

variable (f c cardinality clock next) in
/-- An update in place searches for a violated guard and ends there if it finds one; else it goes on. -/
theorem runs_search (fit : c.Fit (f.predicate resolver) cardinality) (found : db.table? name.text = some t) (r : Except StoreError (Nat × Nat)) (after : Database)
    (rest : complaintOf? c (t.targets (f.predicate resolver) cardinality) = none → Runs clock next db (do
      let matched ← execute ⟨name, resolver⟩ (.countTargets (f.predicate resolver) cardinality)
      let modified ← execute ⟨name, resolver⟩ (.change c (f.predicate resolver) cardinality (← now))
      return (matched.toNat, modified)) r after) :
    match complaintOf? c (t.targets (f.predicate resolver) cardinality) with
    | some e => Runs clock clock db (updateInPlace ⟨name, resolver⟩ f c cardinality) (.error (.apply e)) db
    | none => Runs clock next db (updateInPlace ⟨name, resolver⟩ f c cardinality) r after := by
  let rows := t.targets (f.predicate resolver) cardinality
  have searched (some_ : ¬ c.guards.isEmpty = true) :
      Runs clock clock db (execute ⟨name, resolver⟩ (.guard c.guards (f.predicate resolver) cardinality))
        (.ok (Table.guardCode c.guards rows)) db := by
    have fits := fit.search (.guard c.guards (f.predicate resolver) cardinality) (if_neg some_)
    exact Runs.number (by rw [run_of_fits fits, answer, tableOf_eq_ok.2 found]; rfl)
  have complaint := complaintOf?_eq c rows
  change complaintOf? c rows = none → _ at rest
  show match complaintOf? c rows with
    | some e => Runs clock clock db (updateInPlace ⟨name, resolver⟩ f c cardinality) (.error (.apply e)) db
    | none => Runs clock next db (updateInPlace ⟨name, resolver⟩ f c cardinality) r after
  unfold updateInPlace
  simp only [Statement.guard?]
  by_cases empty : c.guards.isEmpty = true
  · rw [List.isEmpty_iff.1 empty, List.getElem?_nil, Option.map_none, ite_self] at complaint
    simp only [empty, if_true, complaint]
    exact rest complaint
  simp only [empty, Bool.false_eq_true, if_false]
  by_cases known : 0 ≤ Table.guardCode c.guards rows
  · rw [if_pos known] at complaint
    cases failed : c.guards[(Table.guardCode c.guards rows).toNat]? with
    | none =>
      rw [failed] at complaint
      rw [complaint]
      refine (searched empty).bind ?_
      simp only [known, if_true, failed]
      exact rest complaint
    | some g =>
      rw [failed] at complaint
      rw [complaint]
      refine (searched empty).bind ?_
      simp only [known, if_true, failed]
      exact .throw_bind _ _
  · rw [if_neg known] at complaint
    rw [complaint]
    refine (searched empty).bind ?_
    simp only [known, if_false]
    exact rest complaint

/-- An update in place fails with the first complaint and changes nothing. -/
theorem runs_updateInPlace_error (fit : c.Fit (f.predicate resolver) cardinality) (found : db.table? name.text = some t) {e : ApplyError}
    (complaint : complaintOf? c (t.targets (f.predicate resolver) cardinality) = some e) :
    Runs clock clock db (updateInPlace ⟨name, resolver⟩ f c cardinality) (.error (.apply e)) db := by
  have searched := runs_search f c cardinality clock clock fit found (.error .closed) db fun fine => by
    cases complaint.symm.trans fine
  rw [complaint] at searched
  exact searched

variable (f cardinality clock) in
/-- An update in place fails with the first complaint and changes nothing, or writes the new states of the rows. -/
theorem runs_updateInPlace (fit : c.Fit (f.predicate resolver) cardinality) (lenient : db.Lenient)
    (found : db.table? name.text = some t)
    (apart : Changes.conflict? c.paths = none) (regular : AllRegular c (t.targets (f.predicate resolver) cardinality)) :
    match complaintOf? c (t.targets (f.predicate resolver) cardinality) with
    | some e => Runs clock clock db (updateInPlace ⟨name, resolver⟩ f c cardinality) (.error (.apply e)) db
    | none => ∃ cs, edits c clock.now (t.targets (f.predicate resolver) cardinality) = .ok cs
        ∧ Runs clock clock.rest db (updateInPlace ⟨name, resolver⟩ f c cardinality)
          (.ok ((t.targets (f.predicate resolver) cardinality).length, cs.length)) (db.rewritten name.text cs) := by
  cases complaint : complaintOf? c (t.targets (f.predicate resolver) cardinality) with
  | some e => exact runs_updateInPlace_error fit found complaint
  | none =>
    obtain ⟨cs, made⟩ := exists_edits apart regular complaint clock.now
    have counted : Runs clock clock db (execute ⟨name, resolver⟩ (.countTargets (f.predicate resolver) cardinality))
        (.ok ((t.targets (f.predicate resolver) cardinality).length : Int)) db :=
      Runs.number (by rw [run_of_fits fit.delete.countTargets, answer, tableOf_eq_ok.2 found]; rfl)
    have changed : db.run name resolver (.change c (f.predicate resolver) cardinality clock.now)
        = .ok (cs.length, db.rewritten name.text cs) := by
      rw [run_of_fits (fit.change clock.now)]
      refine (lenient.updateRows found fun cs made => rewrites_of_edits (targets_sublist t _ cardinality) made).trans ?_
      rw [made]
      rfl
    have wrote : Runs clock.rest clock.rest db (execute ⟨name, resolver⟩
        (.change c (f.predicate resolver) cardinality clock.now)) (.ok cs.length) (db.rewritten name.text cs) := Runs.changed changed
    have searched := runs_search f c cardinality clock clock.rest fit found _ _ fun _ => counted.bind (Runs.now.bind (wrote.bind (.pure _)))
    rw [complaint] at searched
    exact ⟨cs, made, searched⟩

/-! ### Document by document -/

/-- The row of an identifier is the only one. -/
theorem filter_id {rows : List Row} (ids : (rows.map Row.id).Nodup) {r : Row} (mem : r ∈ rows) :
    (rows.filter fun s => decide (s.id = r.id)) = [r] := by
  induction rows with
  | nil => cases mem
  | cons s rest ih =>
    rw [List.map_cons, List.nodup_cons] at ids
    rcases List.mem_cons.1 mem with rfl | later
    · have others : (rest.filter fun s => decide (s.id = r.id)) = [] :=
        List.filter_eq_nil_iff.2 fun s hs same => ids.1 (of_decide_eq_true same ▸ List.mem_map_of_mem hs)
      rw [List.filter_cons, others]
      simp
    · have differs : s.id ≠ r.id := fun same => ids.1 (same ▸ List.mem_map_of_mem later)
      rw [List.filter_cons, ih ids.2 later]
      simp [differs]

/-- Overwriting the document of a row gives the row its new state. -/
theorem runs_overwrite (lenient : db.Lenient) (found : db.table? name.text = some t) (ids : (t.rows.map Row.id).Nodup)
    {r r' : Row} (mem : r ∈ t.rows) {text : String} (state : r.withBody text time = .ok r') :
    Runs clock clock db (execute ⟨name, resolver⟩ (.overwrite r.id text time)) (.ok 1) (db.rewritten name.text [(r, r')]) := by
  have changes : ((t.rows.filter fun row => row.id = r.id).mapM fun row => do return (row, ← row.withBody text time))
      = .ok [(r, r')] := by
    rw [filter_id ids mem, List.mapM_cons, state]
    rfl
  refine Runs.changed ((run_of_fits (Statement.fits_overwrite _ _ _)).trans ((lenient.updateRows found fun cs made => ?_).trans ?_))
  · exact rewrites_of_mapM List.filter_sublist (fun r s state => by
      obtain ⟨b, -, rfl⟩ := withBody_eq_ok state
      exact ⟨rfl, rfl, rfl⟩) made
  · rw [changes]
    rfl

/-- Rows that are still to be overwritten are in the table after one that comes before them has been. -/
theorem sublist_rewritten (lenient : db.Lenient) (found : db.table? name.text = some t) {r r' : Row} {rest : List Row}
    (sub : (r :: rest).Sublist t.rows) {text : String} (state : r.withBody text time = .ok r') (written : Row) :
    rest.Sublist (t.editRow r'.rowid fun _ => written).rows := by
  obtain ⟨b, -, rfl⟩ := withBody_eq_ok state
  have nodup := lenient.sound.tidy.rowids t (mem_of_table? found).1
  have firsts : (rest.map fun s => (s, s)).map Prod.fst = rest := by simp [List.map_map, Function.comp_def]
  have rewrites : Rewrites t ((r, { r with data := b, updatedAt := time }) :: rest.map fun s => (s, s)) := by
    refine ⟨?_, ?_, ?_, ?_⟩
    · rw [List.map_cons, firsts]
      exact sub
    all_goals
      refine List.forall_mem_cons.2 ⟨rfl, fun d mem => ?_⟩
      obtain ⟨s, -, rfl⟩ := List.mem_map.1 mem
      rfl
  have tail := (rewrites.tail nodup fun _ => written).rows
  rwa [firsts] at tail

theorem edits_singleton (c : Changes) (time : Int) (r : Row) : edits c time [r]
    = if (c.edit r.data.tree).text = r.data.text then .ok []
      else (r.withBody (c.edit r.data.tree).text time).map fun r' => [(r, r')] := by
  unfold edits
  rw [List.foldrM_cons, List.foldrM_nil]
  show (if _ then _ else _) = _
  split
  · rfl
  · cases r.withBody (c.edit r.data.tree).text time <;> rfl

/-- The changes of a row and of those after it. -/
theorem edits_cons (c : Changes) (time : Int) (r : Row) (rest : List Row) : edits c time (r :: rest)
    = (edits c time rest).bind fun cs => (edits c time [r]).map (· ++ cs) := by
  unfold edits
  rw [List.foldrM_cons]
  cases List.foldrM (m := Except EngineError) _ _ rest with
  | error e => rfl
  | ok cs =>
    rw [ok_bind]
    show _ = Except.map (· ++ cs) (edits c time [r])
    rw [edits_singleton]
    show (if _ then _ else _) = _
    split
    · rfl
    · cases r.withBody (c.edit r.data.tree).text time <;> rfl

variable (resolver clock) in
/-- A document that takes the changes is overwritten unless its value stays the same. -/
theorem runs_overwriteOne (lenient : db.Lenient) (found : db.table? name.text = some t) (ids : (t.rows.map Row.id).Nodup)
    {r : Row} (mem : r ∈ t.rows) {fields after : Fields} (applied : (Update.change c).apply fields = .ok after)
    {r' : Row} (state : r.withBody (Json.object after).text time = .ok r') (count : Nat) :
    if Json.equal (.object after) (.object fields) then
      Runs clock clock db (overwriteOne ⟨name, resolver⟩ (.change c) time count (r.id, fields)) (.ok count) db
    else Runs clock clock db (overwriteOne ⟨name, resolver⟩ (.change c) time count (r.id, fields)) (.ok (count + 1))
      (db.rewritten name.text [(r, r')]) := by
  have changed : Runs clock clock db (Action.ofChange ((Update.change c).apply fields)) (.ok after) db := by
    rw [applied]
    exact .ofChange _
  split
  · rename_i equal
    refine changed.bind ?_
    rw [if_pos equal]
    exact .pure _
  · rename_i differs
    refine changed.bind ?_
    rw [if_neg differs]
    exact (runs_overwrite lenient found ids mem state).bind (.pure _)

variable (resolver clock time) in
/-- A settled document is overwritten as its row is edited. -/
theorem runs_overwriteOne_of_settled (lenient : db.Lenient) (found : db.table? name.text = some t)
    (ids : (t.rows.map Row.id).Nodup) {r : Row} (mem : r ∈ t.rows) {fields after : Fields} (here : c.Settled r.data fields)
    (applied : (Update.change c).apply fields = .ok after) (text : (c.edit r.data.tree).text = (Json.object after).text)
    (count : Nat) : ∃ es, edits c time [r] = .ok es
      ∧ Runs clock clock db (overwriteOne ⟨name, resolver⟩ (.change c) time count (r.id, fields)) (.ok (count + es.length))
        (db.rewritten name.text es)
      ∧ (es = [] ∨ ∃ r', es = [(r, r')] ∧ r.withBody (Json.object after).text time = .ok r') := by
  obtain ⟨r', state⟩ := here.toRegular.exists_state applied time
  have wrote := runs_overwriteOne resolver clock lenient found ids mem applied state count
  rw [edits_singleton, text]
  by_cases same : (Json.object after).text = r.data.text
  · rw [if_pos ((here.unchanged after applied).2 same)] at wrote
    exact ⟨[], if_pos same, wrote, .inl rfl⟩
  · rw [if_neg fun equal => same ((here.unchanged after applied).1 equal)] at wrote
    exact ⟨[(r, r')], by rw [if_neg same, state]; rfl, wrote, .inr ⟨r', rfl, state⟩⟩

variable (name resolver clock time) in
/-- One after another, the documents are overwritten up to the first complaint. -/
theorem runs_overwriteAll (apart : Changes.conflict? c.paths = none) {rows : List Row} {ds : List (String × Fields)}
    (settled : List.Forall₂ (fun (r : Row) (d : String × Fields) => d.1 = r.id ∧ c.Settled r.data d.2) rows ds)
    (lenient : db.Lenient) (found : db.table? name.text = some t) (ids : (t.rows.map Row.id).Nodup)
    (sub : rows.Sublist t.rows) (count : Nat) : match complaintOf? c rows with
      | some e => ∃ after, Runs clock clock db (ds.foldlM (overwriteOne ⟨name, resolver⟩ (.change c) time) count)
          (.error (.apply e)) after
      | none => ∀ cs, edits c time rows = .ok cs →
          Runs clock clock db (ds.foldlM (overwriteOne ⟨name, resolver⟩ (.change c) time) count) (.ok (count + cs.length))
            (db.rewritten name.text cs) := by
  induction settled generalizing db t count with
  | nil =>
    rintro cs ⟨⟩
    exact .pure _
  | @cons r d rest ds first others ih =>
    obtain ⟨id, fields⟩ := d
    obtain ⟨rfl, here⟩ := first
    have applied := here.toRegular.apply apart
    have mem := sub.subset List.mem_cons_self
    unfold complaintOf?
    rw [List.findSome?_cons, List.foldlM_cons]
    cases complaint : c.complaint? r.data with
    | some e =>
      rw [complaint] at applied
      have refused : Runs clock clock db (Action.ofChange ((Update.change c).apply fields)) (.error (.apply e)) db := by
        rw [applied]
        exact .ofChange _
      exact ⟨db, Runs.bind_error refused.bind_error⟩
    | none =>
      rw [complaint] at applied
      obtain ⟨after, applied, text⟩ := applied
      obtain ⟨es, edited, wrote, states⟩ := runs_overwriteOne_of_settled resolver clock time lenient found ids
        mem here applied text count
      -- the database that the rest of the documents is overwritten in
      have next : (db.rewritten name.text es).Lenient ∧ ∃ u, (db.rewritten name.text es).table? name.text = some u
          ∧ (u.rows.map Row.id).Nodup ∧ rest.Sublist u.rows
          ∧ ∀ cs, (db.rewritten name.text es).rewritten name.text cs = db.rewritten name.text (es ++ cs) := by
        obtain rfl | ⟨r', rfl, state⟩ := states
        · exact ⟨lenient, t, found, ids, (List.sublist_cons_self r rest).trans sub, fun _ => rfl⟩
        · have left := sublist_rewritten lenient found sub state (db.copied name.text .bodyUpdate r')
          obtain ⟨b, -, rfl⟩ := withBody_eq_ok state
          obtain ⟨-, kept⟩ := lenient.updateRow (c := (r, { r with data := b, updatedAt := time })) found rfl mem rfl rfl
          have rewrites : Rewrites t [(r, { r with data := b, updatedAt := time })] :=
            ⟨List.singleton_sublist.2 mem, by simp, by simp, by simp⟩
          refine ⟨kept, _, found_mapTable (Table.editRow_name _ _) found, ?_, left, fun _ => rfl⟩
          have same := Table.ids_rewrite (fun r : Row =>
              (⟨copied_rowid _ _ _ r, (Row.twin_copied True _ _ _ r).id⟩ : (db.copied name.text .bodyUpdate r).rowid = r.rowid ∧ _)) rewrites
            (lenient.sound.tidy.rowids t (mem_of_table? found).1)
          exact same.symm ▸ ids
      obtain ⟨lenient', u, found', ids', sub', joined⟩ := next
      have later := ih lenient' found' ids' sub' (count + es.length)
      show match complaintOf? c rest with
        | some e => ∃ after, Runs clock clock db _ (.error (.apply e)) after
        | none => ∀ cs, edits c time (r :: rest) = .ok cs → Runs clock clock db _ (.ok (count + cs.length)) _
      cases found : complaintOf? c rest with
      | some e =>
        rw [found] at later
        obtain ⟨after, failed⟩ := later
        exact ⟨after, wrote.bind failed⟩
      | none =>
        rw [found] at later
        intro cs made
        rw [edits_cons, edited] at made
        cases rested : edits c time rest with
        | error e => rw [rested] at made; cases made
        | ok cs' =>
          rw [rested] at made
          cases made
          rw [List.length_append, ← Nat.add_assoc, ← joined]
          exact wrote.bind (later cs' rested)

/-- The identifiers and documents of the rows, when all can be read. -/
theorem exists_bodies {rows : List Row} (settled : AllSettled c rows) : ∃ ds : List (String × Fields),
    (rows.mapM fun r => do return (r.id, ← r.data.decode)) = (.ok ds : Except StoreError _)
      ∧ List.Forall₂ (fun (r : Row) (d : String × Fields) => d.1 = r.id ∧ c.Settled r.data d.2) rows ds := by
  induction rows with
  | nil => exact ⟨[], rfl, .nil⟩
  | cons r rest ih =>
    obtain ⟨fields, here⟩ := settled r List.mem_cons_self
    obtain ⟨ds, read, others⟩ := ih fun s mem => settled s (List.mem_cons_of_mem _ mem)
    refine ⟨(r.id, fields) :: ds, ?_, .cons ⟨rfl, here⟩ others⟩
    rw [List.mapM_cons, here.decoded, ok_bind, pure_eq, ok_bind, read]
    rfl

variable (clock) in
/-- An update document by document fails with the first complaint, or writes the new states of the rows. -/
theorem runs_overwriteMatching (fits : (f.predicate resolver).Fits) (lenient : db.Lenient) (found : db.table? name.text = some t)
    (ids : (t.rows.map Row.id).Nodup) (apart : Changes.conflict? c.paths = none)
    (settled : AllSettled c (t.targets (f.predicate resolver) cardinality)) :
    match complaintOf? c (t.targets (f.predicate resolver) cardinality) with
    | some e => ∃ after, Runs clock clock.rest db (overwriteMatching ⟨name, resolver⟩ f (.change c) cardinality)
        (.error (.apply e)) after
    | none => ∀ cs, edits c clock.now (t.targets (f.predicate resolver) cardinality) = .ok cs →
        Runs clock clock.rest db (overwriteMatching ⟨name, resolver⟩ f (.change c) cardinality)
          (.ok ((t.targets (f.predicate resolver) cardinality).length, cs.length)) (db.rewritten name.text cs) := by
  obtain ⟨ds, read, each⟩ := exists_bodies settled
  have fetched : Runs clock clock db (execute ⟨name, resolver⟩ (.fetch (f.predicate resolver) cardinality))
      (.ok (t.targets (f.predicate resolver) cardinality)) db :=
    Runs.rows (by rw [run_of_fits (fits.fetch cardinality), answer, tableOf_eq_ok.2 found]; rfl)
  have decoded : Runs clock clock db (Action.ofStore
      ((t.targets (f.predicate resolver) cardinality).mapM fun r => do return (r.id, ← r.data.decode))) (.ok ds) db := by
    rw [read]
    exact .ofStore _
  have wrote := runs_overwriteAll name resolver clock.rest clock.now apart each lenient found ids
    (targets_sublist t _ cardinality) 0
  cases complaint : complaintOf? c (t.targets (f.predicate resolver) cardinality) with
  | some e =>
    rw [complaint] at wrote
    obtain ⟨after, failed⟩ := wrote
    exact ⟨after, fetched.bind (decoded.bind (Runs.now.bind failed.bind_error))⟩
  | none =>
    rw [complaint] at wrote
    intro cs made
    have all := wrote cs made
    rw [Nat.zero_add] at all
    exact fetched.bind (decoded.bind (Runs.now.bind (all.bind (.pure _))))

variable (cardinality clock) in
/-- The strategies end alike, having read the clock at most once. What they leave is the same, unless they fail. -/
theorem runs_strategies (fit : c.Fit (f.predicate resolver) cardinality) (lenient : db.Lenient) (found : db.table? name.text = some t) (ids : (t.rows.map Row.id).Nodup)
    (apart : Changes.conflict? c.paths = none) (settled : AllSettled c (t.targets (f.predicate resolver) cardinality)) :
    ∃ r next after after', (next = clock ∨ next = clock.rest)
      ∧ Runs clock next db (updateInPlace ⟨name, resolver⟩ f c cardinality) r after
      ∧ Runs clock clock.rest db (overwriteMatching ⟨name, resolver⟩ f (.change c) cardinality) r after'
      ∧ ∀ x, r = .ok x → after = after' := by
  have regular : AllRegular c (t.targets (f.predicate resolver) cardinality) := fun r mem =>
    (settled r mem).imp fun _ here => here.toRegular
  have one := runs_updateInPlace f cardinality clock fit lenient found apart regular
  have other := runs_overwriteMatching clock fit.reads lenient found ids apart settled
  cases complaint : complaintOf? c (t.targets (f.predicate resolver) cardinality) with
  | some e =>
    rw [complaint] at one other
    obtain ⟨after, failed⟩ := other
    exact ⟨_, _, _, _, .inl rfl, one, failed, nofun⟩
  | none =>
    rw [complaint] at one other
    obtain ⟨cs, made, ran⟩ := one
    exact ⟨_, _, _, _, .inr rfl, ran, other cs made, fun _ _ => rfl⟩

/-- For one document that the engine changes as the store does, the condition on its values is exact: the strategies make
the same of it only if it is settled. -/
theorem runs_strategies_iff (fit : c.Fit (f.predicate resolver) cardinality) (lenient : db.Lenient) (found : db.table? name.text = some t) (ids : (t.rows.map Row.id).Nodup)
    (apart : Changes.conflict? c.paths = none) {r : Row} (target : t.targets (f.predicate resolver) cardinality = [r])
    {fields after : Fields} (regular : c.Regular r.data fields) (applied : (Update.change c).apply fields = .ok after) :
    (∃ x db', Runs clock clock.rest db (updateInPlace ⟨name, resolver⟩ f c cardinality) x db'
        ∧ Runs clock clock.rest db (overwriteMatching ⟨name, resolver⟩ f (.change c) cardinality) x db')
      ↔ (Json.equal (.object after) (.object fields) = true ↔ (Json.object after).text = r.data.text) := by
  have mem : r ∈ t.rows := (targets_sublist t (f.predicate resolver) cardinality).subset (target ▸ List.mem_cons_self)
  have text := regular.apply apart
  obtain ⟨r', state⟩ := regular.exists_state applied clock.now
  cases complaint : c.complaint? r.data with
  | some e => rw [complaint, applied] at text; cases text
  | none =>
    rw [complaint] at text
    obtain ⟨made, eq, text⟩ := text
    obtain rfl := Except.ok.inj (applied.symm.trans eq)
    have fine : complaintOf? c [r] = none := by simp [complaintOf?, complaint]
    constructor
    · rintro ⟨x, db', one, other⟩
      have placed := runs_updateInPlace f cardinality clock fit lenient found apart
        (by rw [target]; exact List.forall_mem_singleton.2 ⟨fields, regular⟩)
      rw [target, fine] at placed
      obtain ⟨cs, edited, placed⟩ := placed
      have fetched : Runs clock clock db (execute ⟨name, resolver⟩ (.fetch (f.predicate resolver) cardinality)) (.ok [r]) db :=
        Runs.rows (by rw [run_of_fits (fit.reads.fetch cardinality), answer, tableOf_eq_ok.2 found, ok_bind, target]; rfl)
      have decoded : Runs clock clock db (Action.ofStore ([r].mapM fun r => do return (r.id, ← r.data.decode)))
          (.ok [(r.id, fields)]) db := by
        rw [List.mapM_cons, regular.decoded]
        exact .ofStore _
      have wrote := runs_overwriteOne resolver clock.rest lenient found ids mem applied state 0
      have counts : ∀ {n : Nat} {after : Database}, Runs clock.rest clock.rest db
          (overwriteOne ⟨name, resolver⟩ (.change c) clock.now 0 (r.id, fields)) (.ok n) after → n = cs.length := by
        intro n after wrote
        have whole : Runs clock clock.rest db (overwriteMatching ⟨name, resolver⟩ f (.change c) cardinality) (.ok (1, n)) after :=
          fetched.bind (decoded.bind (Runs.now.bind ((wrote.bind (.pure _)).bind (.pure _))))
        have same := (whole.unique other).1.trans (one.unique placed).1
        exact (Prod.mk.inj (Except.ok.inj same)).2
      rw [edits_singleton, text] at edited
      split at wrote
      · rename_i equal
        have none_ := counts wrote
        refine ⟨fun _ => ?_, fun _ => equal⟩
        split at edited
        · assumption
        · rw [state] at edited
          cases edited
          cases none_
      · rename_i differs
        have some_ := counts wrote
        refine ⟨fun equal => absurd equal differs, fun same => ?_⟩
        rw [if_pos same] at edited
        cases edited
        cases some_
    · intro unchanged
      have settled : AllSettled c (t.targets (f.predicate resolver) cardinality) := by
        rw [target]
        refine List.forall_mem_singleton.2 ⟨fields, regular, fun other eq => ?_⟩
        obtain rfl := Except.ok.inj (applied.symm.trans eq)
        exact unchanged
      obtain ⟨x, next, after, after', -, one, other, same⟩ := runs_strategies cardinality clock fit lenient found ids apart settled
      have placed := runs_updateInPlace f cardinality clock fit lenient found apart
        (by rw [target]; exact List.forall_mem_singleton.2 ⟨fields, regular⟩)
      rw [target, fine] at placed
      obtain ⟨cs, -, placed⟩ := placed
      have ended := (one.unique placed).1
      exact ⟨x, after, ended ▸ (one.unique placed).2 ▸ placed, same _ ended ▸ other⟩

end Collection

end Dossier
