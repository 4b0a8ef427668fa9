import Dossier.Collection.Documents
import Dossier.Proofs.Database.Sorting
import Dossier.Proofs.Database.Sound
import Dossier.Proofs.Filter.Selecting
import Dossier.Proofs.Session.Invariant
import Dossier.Proofs.Session.Still

/-!
# One selection for all calls

A listing gives some of the rows that a filter selects, so every document that is found is the document of a row of
the collection's table (`Collection.gives_find`).

Finding, finding one, counting and deleting go through statements of their own, but all of them are about the rows that
one predicate holds of (`Table.select`). `Collection.Selects` says what the calls that read answer; in a table whose rows
decode they agree (`Collection.exists_selects`), and deleting takes out what they show (`Collection.delete_of_selects`). The
documents that the calls give are those of the rows that match (`Collection.mem_selects`).
-/

namespace Dossier

open Dossier.Action Outcome
open Sql (limits)

namespace Listing

variable {l : Listing} {r : Resolver} {rows given : List Row} {row : Row}

theorem mem_of_page {α : Type} {l : Listing} {rows given : List α} (made : l.page rows = .ok given) {row : α}
    (mem : row ∈ given) : row ∈ rows := by
  unfold page at made
  simp only at made
  split at made
  · cases made
  · split at made
    · cases made
      cases mem
    · split at made
      · cases made
      · cases made
        split at mem
        · exact List.mem_of_mem_drop (List.mem_of_mem_take mem)
        · exact List.mem_of_mem_drop mem

theorem mem_of_apply (made : l.apply r rows = .ok given) (mem : row ∈ given) : row ∈ rows := by
  unfold apply at made
  split at made
  · cases made
  · exact (List.mergeSort_perm _ _).mem_iff.1 (mem_of_page made mem)

end Listing

/-- The row is one of a collection's table. -/
def Database.HasRow (db : Database) (name : CollectionName) (r : Row) : Prop :=
  ∃ t, db.table? name.text = some t ∧ r ∈ t.rows

theorem Database.hasRow_of_find {db after : Database} {name : CollectionName} {r : Resolver} {p : Predicate}
    {l : Listing} {rows : List Row} (found : db.run name r (.find p l) = .ok (rows, after)) :
    ∀ row ∈ rows, db.HasRow name row := by
  intro row mem
  obtain ⟨t, table, found⟩ := bind_eq_ok.1 (Database.answer_of_run found)
  obtain ⟨given, applied, eq⟩ := bind_eq_ok.1 found
  cases eq
  exact ⟨t, tableOf_eq_ok.1 table, (List.mem_filter.1 (Listing.mem_of_apply applied mem)).1⟩

/-- Every document that is found is the document of a row. -/
theorem Collection.gives_find {inside : Prop} (c : Collection) (filter : Json) (listing : Listing) (db : Database) :
    Gives inside (· = db) (c.find filter listing) fun docs => ∀ d ∈ docs, ∃ r, db.HasRow c.name r ∧ r.document = .ok d := by
  refine (Invariant.ofRequest _).gives.bind fun f _ => ?_
  refine (Gives.rows fun _ rows after same found => same ▸ Database.hasRow_of_find found).bind fun rows stored => ?_
  refine Gives.ofStore fun docs made d mem => ?_
  obtain ⟨r, hr, document⟩ := exists_of_mapM made mem
  exact ⟨r, stored r hr, document⟩

/-- The action does not fail for want of decoding. -/
def StoreError.Decodes {α : Type} (r : Except StoreError α) : Prop := ∀ fault, r ≠ .error (.serialization fault)

theorem Row.document_eq_ok {r : Row} {d : Document} (read : r.document = .ok d) :
    d.id = r.id ∧ r.data.decode = .ok d.body := by
  obtain ⟨body, decoded, eq⟩ := bind_eq_ok.1 read
  cases eq
  exact ⟨rfl, decoded⟩

/-- Where all rows of the table decode, finding does not fail for want of decoding. -/
theorem Collection.find_decodes {inside : Prop} (c : Collection) (filter : Json) (listing : Listing) {db : Database}
    (reads : ∀ r, db.HasRow c.name r → ∃ fields, r.data.decode = .ok fields) :
    Spec inside (· = db) (c.find filter listing) fun r _ => StoreError.Decodes r := by
  have passed : ∀ {α β : Type} (e : StoreError), StoreError.Decodes (.error e : Except StoreError α) →
      StoreError.Decodes (.error e : Except StoreError β) := fun e decodes fault eq => decodes fault (by cases eq; rfl)
  have parsed : Spec inside (· = db) (readFilter filter) fun r after => after = db ∧ StoreError.Decodes r := by
    refine Spec.ofRequest _ fun _ start => ⟨start, fun fault eq => ?_⟩
    cases read : Filter.parse filter <;> rw [read] at eq <;> cases eq
  refine Spec.bind parsed (fun f => ?_) fun e _ done => passed e done.2
  have listed : Spec inside (fun after => after = db ∧ StoreError.Decodes (.ok f))
      (Action.read fun db => (db.run c.name c.resolver (.find (c.predicate f) listing)).map (·.1) : Action (List Row))
      fun r _ => (∀ rows, r = .ok rows → ∀ row ∈ rows, db.HasRow c.name row) ∧ StoreError.Decodes r := by
    refine Spec.read fun after start => ?_
    rw [start.1]
    cases ran : db.run c.name c.resolver (.find (c.predicate f) listing) with
    | error e => exact ⟨fun rows eq => (by cases eq), fun fault eq => by cases e <;> cases eq⟩
    | ok p => exact ⟨fun rows eq => by cases eq; exact Database.hasRow_of_find ran, fun fault eq => by cases eq⟩
  refine Spec.bind listed (fun rows => ?_) fun e _ done => passed e done.2
  refine Spec.ofStore _ fun _ start fault eq => ?_
  have decode : ∀ row ∈ rows, ∃ d, row.document = .ok d := by
    intro row mem
    obtain ⟨fields, decoded⟩ := reads row (start.1 rows rfl row mem)
    exact ⟨_, by rw [Row.document, decoded]; rfl⟩
  obtain ⟨docs, made⟩ := exists_mapM decode
  rw [made] at eq
  cases eq

/-! ## Filters that fit -/

theorem Condition.params_compareTerm (x : Operand) (op : Value.Comparison) (v : Json) :
    (compareTerm x op v).params.length ≤ 1 ∧ (compareTerm x op v).isTooLong = false := by
  have one : (1 : Nat) ≤ 1 := Nat.le_refl 1
  unfold compareTerm
  split
  · exact ⟨Nat.zero_le 1, rfl⟩
  · exact ⟨Nat.zero_le 1, rfl⟩
  · exact ⟨one, rfl⟩
  · exact ⟨one, rfl⟩
  · split <;> exact ⟨one, rfl⟩
  · exact ⟨one, rfl⟩

namespace Filter

variable {r : Resolver} {name : String} {field : FieldRef} {conditions : List Condition}

/-- Comparisons fit, whatever they compare with, if they are not too many. -/
theorem fits_of_comparisons (all : ∀ c ∈ conditions, ∃ op v, c = .compare op v) (few : conditions.length + 3 ≤ limits.depth) :
    ((Filter.on name field conditions).predicate r).Fits := by
  rw [predicate_on]
  have values : (Predicate.params (conditions.map (Condition.term (r.operand field)))).length ≤ conditions.length := by
    clear few
    induction conditions with
    | nil => exact Nat.le_refl 0
    | cons c rest ih =>
      obtain ⟨⟨op, v, rfl⟩, later⟩ := List.forall_mem_cons.1 all
      have one : ((Condition.compare op v).term (r.operand field)).params.length ≤ 1 :=
        (Condition.params_compareTerm (r.operand field) op v).1
      have more := ih later
      simp only [Predicate.params, List.map_cons, List.flatMap_cons, List.length_append, List.length_cons] at more ⊢
      omega
  have room : limits.depth ≤ limits.values := by decide
  refine Statement.fits_of_length (by rwa [List.length_map]) (by omega) fun t mem => ?_
  obtain ⟨c, there, rfl⟩ := List.mem_map.1 mem
  obtain ⟨op, v, rfl⟩ := all c there
  exact (Condition.params_compareTerm (r.operand field) op v).2

theorem fits_compare {op : Value.Comparison} {v : Json} : ((Filter.on name field [.compare op v]).predicate r).Fits :=
  fits_of_comparisons (List.forall_mem_singleton.2 ⟨op, v, rfl⟩) (show 4 ≤ limits.depth by decide)

theorem fits_delete_compare {op : Value.Comparison} {v : Json} {cardinality : Cardinality} :
    (Statement.delete ((Filter.on name field [.compare op v]).predicate r) cardinality).Fits := by
  have deep : 10 ≤ limits.depth := by decide
  have fits : ((Filter.on name field [.compare op v]).predicate r).Fits := fits_compare
  rw [predicate_on] at fits ⊢
  exact Statement.fits_delete_of_length deep (Statement.isWithinLimits_iff.1 fits.1).2.2.2 fits.2

/-- A membership fits if a statement takes its values. -/
theorem fits_member {negated : Bool} {vs : List Json} (few : vs.length ≤ limits.values) :
    ((Filter.on name field [.member negated vs]).predicate r).Fits := by
  rw [predicate_on]
  have deep : 4 ≤ limits.depth := by decide
  cases vs with
  | nil => exact Statement.fits_of_length deep (Nat.zero_le _) (List.forall_mem_singleton.2 rfl)
  | cons v rest =>
    have values : (Predicate.params ([Condition.member negated (v :: rest)].map (Condition.term (r.operand field)))).length
        = (v :: rest).length := by
      show (((v :: rest).map Value.ofJson) ++ []).length = _
      rw [List.append_nil, List.length_map]
    exact Statement.fits_of_length deep (values ▸ few) (List.forall_mem_singleton.2 rfl)

end Filter

/-! ## Rows -/

/-- Taking out no row changes nothing. -/
theorem Database.deleteRows_nil (db : Database) (table : String) : db.deleteRows table [] = db := by
  simp [deleteRows, mapTable]

theorem Database.found_deleteRows {db : Database} {table : String} {t : Table} (found : db.table? table = some t)
    (rowids : List Int) : (db.deleteRows table rowids).table? table
      = some { t with rows := t.rows.filter fun r => !rowids.contains r.rowid } :=
  found_mapTable (fun _ => rfl) found

namespace Workspace

/-- A collection's table as the workspace sees it: its rows, in the order of their numbers, read as these documents. -/
structure Shows (w : Workspace) (name : CollectionName) (t : Table) (all : List Document) : Prop where
  found : w.current.table? name.text = some t
  decodes : t.rows.mapM Row.document = .ok all

end Workspace

namespace Collection

/-- What the calls that read answer for a filter that selects these documents. -/
structure Selects (c : Collection) (w : Workspace) (filter : Json) (docs : List Document) : Prop where
  find : ((c.find filter .all).result w).1 = .ok docs
  findOne : ((c.findOne filter).result w).1 = .ok docs.head?
  count : ((c.count filter).result w).1 = .ok (docs.length : Int)

variable {c : Collection} {v w : Workspace} {t : Table} {all docs : List Document} {filter change : Json} {f : Filter} {u : Update}

/-! ## Reading -/

/-- A statement that reads answers what the current database says. -/
theorem exists_read (orderly : w.Orderly) (g : Database → Except EngineError α) :
    ∃ v : Workspace, (read g).result w = ((g w.current).mapError .ofEngine, v) ∧ v.Kept w ∧ v.current = w.current :=
  have ⟨answer, kept, current⟩ := read_kept orderly g
  ⟨_, Prod.ext answer rfl, kept, current⟩

theorem result_readFilter (parsed : Filter.parse filter = .ok f) : (readFilter filter).result w = (.ok f, w) := by
  rw [readFilter, result_ofRequest, parsed]
  rfl

/-- What comes after the filter and the change of an update have been read. -/
theorem result_readUpdate (parsed : Filter.parse filter = .ok f) (accepted : Update.parse change = .ok u)
    (next : Filter → Update → Action UpdateResult) :
    (do let f ← readFilter filter; let u ← ofRequest (Update.parse change); next f u : Action UpdateResult).result w
      = (next f u).result w := by
  rw [result_bind, result_readFilter parsed]
  simp only
  rw [result_bind, result_ofRequest, accepted]
  rfl

/-- Finding gives the documents of the rows that the listing leaves of those that the filter selects. -/
theorem find_eq (orderly : w.Orderly) (found : w.current.table? c.name.text = some t) (parsed : Filter.parse filter = .ok f)
    (takes : w.current.Takes c.name (c.predicate f)) {l : Listing} {rows : List Row} (applied : l.apply c.resolver (t.select (c.predicate f)) = .ok rows) :
    ((c.find filter l).result w).1 = rows.mapM Row.document := by
  have answers : (w.current.run c.name c.resolver (.find (c.predicate f) l)).map (·.1) = .ok rows := by
    rw [takes.find, Database.answer, Database.tableOf_eq_ok.2 found, ok_bind, applied]
    rfl
  obtain ⟨v, ran, -⟩ := exists_read orderly fun db => (db.run c.name c.resolver (.find (c.predicate f) l)).map (·.1)
  rw [find, result_bind, result_readFilter parsed]
  simp only
  rw [result_bind, execute, Action.execute, ran, answers]
  simp only [Except.mapError]
  rw [result_ofStore]

/-- With a filter that the engine does not take, finding fails. -/
theorem find_of_excess (orderly : w.Orderly) (parsed : Filter.parse filter = .ok f)
    (excess : (Statement.count (c.predicate f)).isWithinLimits = false) (l : Listing) :
    ((c.find filter l).result w).1 = .error (.ofEngine (.failure "statement too large")) := by
  have within : (Statement.find (c.predicate f) l).isWithinLimits = false := excess
  obtain ⟨v, ran, -⟩ := exists_read orderly fun db => (db.run c.name c.resolver (.find (c.predicate f) l)).map (·.1)
  rw [find, result_bind, result_readFilter parsed]
  simp only
  rw [result_bind, execute, Action.execute, ran, Database.run_of_excess within]
  rfl

theorem find_all (orderly : w.Orderly) (found : w.current.table? c.name.text = some t) (parsed : Filter.parse filter = .ok f)
    (takes : w.current.Takes c.name (c.predicate f)) : ((c.find filter .all).result w).1 = (t.select (c.predicate f)).mapM Row.document :=
  find_eq orderly found parsed takes (Listing.apply_all _ _)

theorem findOne_eq (orderly : w.Orderly) (found : w.current.table? c.name.text = some t)
    (parsed : Filter.parse filter = .ok f) (takes : w.current.Takes c.name (c.predicate f)) :
    ((c.findOne filter).result w).1 = (((t.select (c.predicate f)).take 1).mapM Row.document).map List.head? := by
  rw [← find_eq orderly found parsed takes (Listing.apply_first _ _), findOne, result_bind]
  cases (c.find filter .first).result w with
  | mk r v => cases r <;> rfl

theorem count_eq (orderly : w.Orderly) (found : w.current.table? c.name.text = some t) (parsed : Filter.parse filter = .ok f)
    (takes : w.current.Takes c.name (c.predicate f)) : ((c.count filter).result w).1 = .ok ((t.select (c.predicate f)).length : Int) := by
  have answers : (w.current.run c.name c.resolver (.count (c.predicate f))).map (·.1)
      = .ok ((t.select (c.predicate f)).length : Int) := by
    rw [takes.count, Database.answer, Database.tableOf_eq_ok.2 found]
    rfl
  obtain ⟨v, ran, -⟩ := exists_read orderly fun db => (db.run c.name c.resolver (.count (c.predicate f))).map (·.1)
  rw [count, result_bind, result_readFilter parsed]
  simp only
  rw [execute, Action.execute, ran, answers]
  rfl

/-- Documents have the identifiers of the rows that they are read from. -/
theorem ids_of_decodes {rows : List Row} (decodes : rows.mapM Row.document = .ok docs) :
    docs.map Document.id = rows.map Row.id :=
  map_of_mapM (fun _ _ read => (Row.document_eq_ok read).1) decodes

theorem length_of_decodes {rows : List Row} (decodes : rows.mapM Row.document = .ok docs) : docs.length = rows.length := by
  simpa using congrArg List.length (ids_of_decodes decodes)

/-- The calls that read agree on the documents of the rows that a filter selects. -/
theorem selects_of_decodes (orderly : w.Orderly) (found : w.current.table? c.name.text = some t)
    (parsed : Filter.parse filter = .ok f) (takes : w.current.Takes c.name (c.predicate f)) (decodes : (t.select (c.predicate f)).mapM Row.document = .ok docs) :
    c.Selects w filter docs where
  find := (find_all orderly found parsed takes).trans decodes
  findOne := by rw [findOne_eq orderly found parsed takes, mapM_take 1 decodes, map_ok, List.head?_take, if_neg Nat.one_ne_zero]
  count := by rw [count_eq orderly found parsed takes, length_of_decodes decodes]

/-- The empty filter selects all documents. -/
theorem selects_all (orderly : w.Orderly) (shows : w.Shows c.name t all) : c.Selects w (.object []) all :=
  selects_of_decodes (f := ⟨[]⟩) orderly shows.found rfl (.of_fits Predicate.fits_nil) ((congrArg _ t.select_nil).trans shows.decodes)

/-- Where all rows decode, a filter selects some of the documents, in their order. -/
theorem exists_selects (orderly : w.Orderly) (shows : w.Shows c.name t all) (parsed : Filter.parse filter = .ok f)
    (takes : w.current.Takes c.name (c.predicate f)) : ∃ docs, (t.select (c.predicate f)).mapM Row.document = .ok docs ∧ docs.Sublist all ∧ c.Selects w filter docs := by
  obtain ⟨docs, decodes, sub⟩ := mapM_sublist List.filter_sublist shows.decodes
  exact ⟨docs, decodes, sub, selects_of_decodes orderly shows.found parsed takes decodes⟩

/-! ## Deleting -/

/-- Taking rows out takes out the documents of their identifiers. -/
theorem decodes_without (numbered : t.Numbered) (decodes : t.rows.mapM Row.document = .ok all) {gone : List Row}
    (sub : gone.Sublist t.rows) (removed : gone.mapM Row.document = .ok docs) :
    (t.rows.filter fun r => !(gone.map Row.rowid).contains r.rowid).mapM Row.document
      = .ok (all.filter fun d => !(docs.map Document.id).contains d.id) := by
  refine mapM_filter (fun r mem d read => ?_) decodes
  rw [ids_of_decodes removed, (Row.document_eq_ok read).1, Bool.not_inj_iff, Bool.eq_iff_iff, List.contains_iff_mem,
    List.contains_iff_mem, List.mem_map, List.mem_map]
  constructor
  · rintro ⟨s, hs, same⟩
    exact ⟨s, hs, congrArg Row.id (numbered.eq_of_rowid (sub.subset hs) mem same)⟩
  · rintro ⟨s, hs, same⟩
    exact ⟨s, hs, congrArg Row.rowid (numbered.eq_of_id (sub.subset hs) mem same)⟩

/-- Deleting takes out the rows that the filter selects, or the first of them, and counts them. -/
theorem delete_eq (orderly : w.Orderly) (free : ¬ w.Barred) (found : w.current.table? c.name.text = some t)
    (parsed : Filter.parse filter = .ok f) {cardinality : Cardinality}
    (fits : (Statement.delete (c.predicate f) cardinality).Fits) : ∃ v : Workspace,
      (c.delete filter cardinality).result w = (.ok (t.targets (c.predicate f) cardinality).length, v) ∧ v.Kept w
      ∧ v.current = w.current.deleteRows c.name.text ((t.targets (c.predicate f) cardinality).map Row.rowid) := by
  have deletes : w.current.run c.name c.resolver (.delete (c.predicate f) cardinality)
      = .ok ((t.targets (c.predicate f) cardinality).length,
        w.current.deleteRows c.name.text ((t.targets (c.predicate f) cardinality).map Row.rowid)) := by
    rw [Database.run_of_fits fits, Database.answer, Database.tableOf_eq_ok.2 found]
    rfl
  rcases write_of_free orderly free fun db => db.run c.name c.resolver (.delete (c.predicate f) cardinality) with
    ⟨e, failed, -⟩ | ⟨n, db, made, ok, kept, current⟩
  · rw [deletes] at failed
    cases failed
  · rw [deletes] at made
    cases made
    refine ⟨_, ?_, kept, current⟩
    rw [delete, result_bind, result_readFilter parsed]
    exact Prod.ext ok rfl

/-- With a filter that the engine does not take, deleting fails. -/
theorem delete_of_excess (orderly : w.Orderly) (free : ¬ w.Barred) (parsed : Filter.parse filter = .ok f)
    {cardinality : Cardinality} (excess : (Statement.delete (c.predicate f) cardinality).isWithinLimits = false) :
    ((c.delete filter cardinality).result w).1 = .error (.ofEngine (.failure "statement too large")) := by
  rcases write_of_free orderly free fun db => db.run c.name c.resolver (.delete (c.predicate f) cardinality) with
    ⟨e, failed, answer⟩ | ⟨n, db, made, -⟩
  · rw [Database.run_of_excess excess] at failed
    cases failed
    rw [delete, result_bind, result_readFilter parsed]
    exact congrArg Prod.fst answer
  · rw [Database.run_of_excess excess] at made
    cases made

/-- Deleting counts the selected documents, or the first of them, and takes out no others. -/
theorem delete_of_selects (orderly : w.Orderly) (free : ¬ w.Barred) (numbered : w.current.Numbered)
    (shows : w.Shows c.name t all) (parsed : Filter.parse filter = .ok f) {cardinality : Cardinality}
    (fits : (Statement.delete (c.predicate f) cardinality).Fits)
    (decodes : (t.targets (c.predicate f) cardinality).mapM Row.document = .ok docs) :
    ∃ v : Workspace, (c.delete filter cardinality).result w = (.ok docs.length, v) ∧ v.Kept w
      ∧ c.Selects v (.object []) (all.filter fun d => !(docs.map Document.id).contains d.id)
      ∧ (docs = [] → v.current = w.current) := by
  obtain ⟨found, reads⟩ := shows
  obtain ⟨v, deleted, kept, current⟩ := delete_eq orderly free found parsed fits
  rw [← length_of_decodes decodes] at deleted
  refine ⟨v, deleted, kept, ?_, fun none => ?_⟩
  · have left := decodes_without (numbered.tables t (Database.mem_of_table? found).1) reads
      (Database.targets_sublist t _ _) decodes
    have found' := Database.found_deleteRows found ((t.targets (c.predicate f) cardinality).map Row.rowid)
    rw [← current] at found'
    exact selects_all kept.orderly ⟨found', left⟩
  · have empty : t.targets (c.predicate f) cardinality = [] :=
      List.length_eq_zero_iff.1 ((length_of_decodes decodes).symm.trans (congrArg List.length none))
    rw [current, empty]
    exact Database.deleteRows_nil _ _

/-! ## Matching -/

/-- The filter is accepted, and the row is one of those that it selects. -/
def Matches (c : Collection) (t : Table) (filter : Json) (r : Row) : Prop :=
  ∃ f, Filter.parse filter = .ok f ∧ r ∈ t.select (c.predicate f)

variable {d : Document} {field operator : String} {ref : FieldRef} {operand : Json} {condition : Condition} {r : Row}

theorem matches_of_parse (parsed : Filter.parse filter = .ok f) : c.Matches t filter r ↔ r ∈ t.select (c.predicate f) := by
  constructor
  · rintro ⟨g, accepted, selected⟩
    cases parsed.symm.trans accepted
    exact selected
  · exact fun selected => ⟨f, parsed, selected⟩

/-- One operator on a field matches the rows for which its condition is true. -/
theorem matches_operator (accepted : FieldRef.parse field = .ok ref) (key : isOperatorKey operator = true)
    (read : Condition.parse field operator operand = .ok condition) : c.Matches t (.asking field [(operator, operand)]) r
      ↔ r ∈ t.rows ∧ ((condition.term (c.resolver.operand ref)).holds r.read).isTrue = true := by
  rw [matches_of_parse (Filter.parse_operator accepted key read), predicate, Table.mem_select_on, List.forall_mem_singleton]

/-- The calls give a document for a filter exactly if a row matches that reads as the document. -/
theorem mem_selects (orderly : w.Orderly) (shows : w.Shows c.name t all) (parsed : Filter.parse filter = .ok f)
    (takes : w.current.Takes c.name (c.predicate f)) :
    (∃ docs, c.Selects w filter docs ∧ d ∈ docs) ↔ ∃ r, c.Matches t filter r ∧ r.document = .ok d := by
  constructor
  · rintro ⟨docs, selects, mem⟩
    have decodes := (find_all orderly shows.found parsed takes).symm.trans selects.find
    obtain ⟨r, selected, document⟩ := exists_of_mapM decodes mem
    exact ⟨r, ⟨f, parsed, selected⟩, document⟩
  · rintro ⟨r, matched, document⟩
    obtain ⟨docs, decodes, -, selects⟩ := exists_selects orderly shows parsed takes
    obtain ⟨d', mem, document'⟩ := exists_of_mem_mapM decodes ((matches_of_parse parsed).1 matched)
    cases document.symm.trans document'
    exact ⟨docs, selects, mem⟩

/-- The calls give one list of documents for a filter. -/
theorem Selects.unique {docs' : List Document} (h : c.Selects w filter docs) (h' : c.Selects w filter docs') : docs = docs' :=
  Except.ok.inj (h.find.symm.trans h'.find)

/-- Two rows of a table do not read as one document. -/
theorem eq_of_document (numbered : t.Numbered) {s : Row} (hr : r ∈ t.rows) (hs : s ∈ t.rows) (document : r.document = .ok d)
    (document' : s.document = .ok d) : r = s :=
  numbered.eq_of_id hr hs ((Row.document_eq_ok document).1.symm.trans (Row.document_eq_ok document').1)

end Collection

end Dossier
