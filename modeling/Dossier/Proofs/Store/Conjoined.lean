import Dossier.Proofs.Filter.Conjunction
import Dossier.Proofs.Statement.Deciding
import Dossier.Proofs.Store.Listing
import Dossier.Proofs.Store.Registry
import Dossier.Proofs.Store.Selecting

/-!
# Filters as conjunctions on reachable stores

`Host.conjoins_of_reached`: in every store that calls lead to, a filter selects what all its conditions select, however they are
arranged into filters, and the engine reads the clause that it is compiled to as that conjunction.
-/

namespace Dossier

open Outcome Sql

/-- A term of a conjunction that fits makes one that fits. -/
theorem Predicate.Fits.single {p : Predicate} {t : Term} (fits : p.Fits) (mem : t ∈ p) : Predicate.Fits [t] := by
  obtain ⟨within, patterns⟩ := fits
  obtain ⟨-, -, -, values⟩ := Statement.isWithinLimits_iff.1 within
  obtain ⟨before, after, rfl⟩ := List.mem_iff_append.1 mem
  refine Statement.fits_of_length (show 4 ≤ limits.depth by decide) (Nat.le_trans ?_ values)
    (List.forall_mem_singleton.2 (patterns t mem))
  show (Predicate.params [t]).length ≤ ((before ++ t :: after).flatMap Term.params).length
  rw [List.flatMap_append, List.flatMap_cons, List.length_append, List.length_append, Predicate.params, List.flatMap_singleton]
  omega

/-- A condition of a filter is one of its terms. -/
theorem Filter.exists_term_of_part {f part : Filter} (mem : part ∈ f.parts) (r : Resolver) :
    ∃ t ∈ f.predicate r, part.predicate r = [t] := by
  obtain ⟨clause, listed, mem⟩ := List.mem_flatMap.1 mem
  obtain ⟨condition, asked, rfl⟩ := List.mem_map.1 mem
  exact ⟨_, List.mem_flatMap.2 ⟨clause, listed, List.mem_map_of_mem asked⟩, predicate_on r⟩

/-- The conditions of a filter that fits do so too. -/
theorem Filter.fits_part {f part : Filter} {r : Resolver} (fits : (f.predicate r).Fits) (mem : part ∈ f.parts) :
    (part.predicate r).Fits := by
  obtain ⟨t, listed, eq⟩ := exists_term_of_part mem r
  exact eq ▸ fits.single listed

namespace Collection

/-- A search with what is accepted as a filter fits. -/
def Fits (c : Collection) (filter : Json) : Prop := ∀ f, Filter.parse filter = .ok f → (c.predicate f).Fits

/-- The filter selects what all of the parts select: of the rows, which finding reads as documents in their order, and, where
finding gives all documents, of these. -/
structure Conjoins (c : Collection) (w : Workspace) (t : Table) (filter : Json) (parts : List Json) : Prop where
  accepts : ∀ g ∈ parts, ∃ f, Filter.parse g = .ok f
  rows : ∀ r, c.Matches t filter r ↔ r ∈ t.rows ∧ ∀ g ∈ parts, c.Matches t g r
  answer : ∃ selected : List Row, selected.Sublist t.rows ∧ (∀ r ∈ t.rows, r ∈ selected ↔ ∀ g ∈ parts, c.Matches t g r)
    ∧ ((c.find filter .all).result w).1 = selected.mapM Row.document
  documents : ∀ all, ((c.find (.object []) .all).result w).1 = .ok all → (all.map Document.id).Nodup
    ∧ ∃ docs : Json → List Document, (∀ g ∈ parts, c.Selects w g (docs g))
      ∧ c.Selects w filter (all.filter fun d => parts.all fun g => ((docs g).map Document.id).contains d.id)

variable {c : Collection} {w : Workspace} {t : Table} {filter other : Json} {f g : Filter} {parts : List Json}
  {docs all : List Document} {r : Row} {d : Document}

/-! ## Rows -/

/-- A filter matches the rows that each of its conditions matches. -/
theorem matches_iff_conditions (parsed : Filter.parse filter = .ok f) :
    c.Matches t filter r ↔ r ∈ t.rows ∧ ∀ g ∈ filter.conditions, c.Matches t g r := by
  have read := Filter.mapM_parse_conditions parsed
  rw [matches_of_parse parsed, predicate, Table.mem_select_iff]
  refine and_congr_right fun _ => ⟨fun selected g mem => ?_, fun matched part mem => ?_⟩
  · obtain ⟨part, there, accepted⟩ := exists_of_mem_mapM read mem
    exact ⟨part, accepted, selected part there⟩
  · obtain ⟨g, there, accepted⟩ := exists_of_mapM read mem
    exact (matches_of_parse accepted).1 (matched g there)

/-- Filters that match the same rows select the same rows, in the same order. -/
theorem select_congr (parsed : Filter.parse filter = .ok f) (parsed' : Filter.parse other = .ok g)
    (same : ∀ r, c.Matches t filter r ↔ c.Matches t other r) : t.select (c.predicate f) = t.select (c.predicate g) := by
  refine List.filter_congr fun r mem => Bool.eq_iff_iff.2 ?_
  have iff := same r
  rw [matches_of_parse parsed, matches_of_parse parsed', Table.select, Table.select, List.mem_filter, List.mem_filter,
    and_iff_right mem, and_iff_right mem] at iff
  exact iff

/-- Finding with filters that match the same rows gives the same with every listing. -/
theorem find_congr (orderly : w.Orderly) (found : w.current.table? c.name.text = some t) (parsed : Filter.parse filter = .ok f)
    (parsed' : Filter.parse other = .ok g) (fits : (c.predicate f).Fits) (fits' : (c.predicate g).Fits)
    (same : ∀ r, c.Matches t filter r ↔ c.Matches t other r) (l : Listing) :
    ((c.find filter l).result w).1 = ((c.find other l).result w).1 := by
  have rows := select_congr parsed parsed' same
  cases applied : l.apply c.resolver (t.select (c.predicate f)) with
  | ok arranged =>
    rw [find_eq orderly found parsed (.of_fits fits) applied, find_eq orderly found parsed' (.of_fits fits') (rows ▸ applied)]
  | error e =>
    rw [find_of_error orderly found parsed (.of_fits fits) applied,
      find_of_error orderly found parsed' (.of_fits fits') (rows ▸ applied)]

/-! ## Documents -/

/-- A row matches a filter exactly if the identifier of its document is among those of the documents that the filter selects. -/
theorem contains_id_iff (orderly : w.Orderly) (numbered : t.Numbered) (found : w.current.table? c.name.text = some t)
    (parsed : Filter.parse filter = .ok f) (fits : (c.predicate f).Fits) (selects : c.Selects w filter docs) (mem : r ∈ t.rows)
    (document : r.document = .ok d) :
    (docs.map Document.id).contains d.id = true ↔ c.Matches t filter r := by
  have decodes := (find_all orderly found parsed (.of_fits fits)).symm.trans selects.find
  rw [matches_of_parse parsed, List.contains_iff_mem, ids_of_decodes decodes, (Row.document_eq_ok document).1, List.mem_map]
  constructor
  · rintro ⟨s, selected, same⟩
    rwa [← numbered.eq_of_id (List.mem_filter.1 selected).1 mem same]
  · exact fun selected => ⟨r, selected, rfl⟩

/-- What holds of the rows holds of the documents, if finding gives them all. -/
theorem conjoins_of_matches (orderly : w.Orderly) (numbered : t.Numbered) (found : w.current.table? c.name.text = some t)
    (parsed : Filter.parse filter = .ok f) (fits : (c.predicate f).Fits) (accepts : ∀ g ∈ parts, ∃ f, Filter.parse g = .ok f)
    (fitting : ∀ g ∈ parts, c.Fits g) (rows : ∀ r, c.Matches t filter r ↔ r ∈ t.rows ∧ ∀ g ∈ parts, c.Matches t g r) : c.Conjoins w t filter parts := by
  have answer : ∀ r ∈ t.rows, r ∈ t.select (c.predicate f) ↔ ∀ g ∈ parts, c.Matches t g r := fun r mem => by
    rw [← matches_of_parse parsed, rows, and_iff_right mem]
  refine ⟨accepts, rows, ⟨_, List.filter_sublist, answer, find_all orderly found parsed (.of_fits fits)⟩, fun all given => ?_⟩
  have empty : Filter.parse (.object []) = .ok ⟨[]⟩ := rfl
  have decodes : t.rows.mapM Row.document = .ok all := by
    rw [← given, find_all orderly found empty (.of_fits Predicate.fits_nil)]
    exact (congrArg (List.mapM Row.document) t.select_nil).symm
  have each : ∀ g, ∃ docs, g ∈ parts → c.Selects w g docs := by
    intro g
    by_cases mem : g ∈ parts
    · obtain ⟨part, accepted⟩ := accepts g mem
      obtain ⟨docs, -, -, selects⟩ := exists_selects orderly ⟨found, decodes⟩ accepted (.of_fits (fitting g mem part accepted))
      exact ⟨docs, fun _ => selects⟩
    · exact ⟨[], fun there => absurd there mem⟩
  choose docs selects using each
  refine ⟨ids_of_decodes decodes ▸ numbered.nodup_ids, docs, selects, selects_of_decodes orderly found parsed (.of_fits fits) ?_⟩
  refine mapM_filter (fun r mem d document => ?_) decodes
  have selected : r ∈ t.select (c.predicate f) ↔ ((c.predicate f).holds r.read).isTrue = true := by
    rw [Table.select, List.mem_filter, and_iff_right mem]
  rw [Bool.eq_iff_iff, ← selected, answer r mem, List.all_eq_true]
  refine forall₂_congr fun g there => ?_
  obtain ⟨part, accepted⟩ := accepts g there
  exact (contains_id_iff orderly numbered found accepted (fitting g there part accepted) (selects g there) mem document).symm

/-! ## Arrangements -/

/-- However the conditions of a filter are arranged into filters, these are accepted, and together they match the same rows. -/
theorem matches_arranged (parsed : Filter.parse filter = .ok f) {others : List Fields}
    (same : ∀ g, g ∈ filter.conditions ↔ ∃ es ∈ others, g ∈ (Json.object es).conditions) :
    (∀ g ∈ others.map Json.object, ∃ f, Filter.parse g = .ok f)
      ∧ ∀ r, c.Matches t filter r ↔ r ∈ t.rows ∧ ∀ g ∈ others.map Json.object, c.Matches t g r := by
  have accepted : ∀ es ∈ others, ∃ f, Filter.parse (.object es) = .ok f := fun es there =>
    Filter.exists_parse_of_subset parsed fun g mem => (same g).2 ⟨es, there, mem⟩
  simp only [List.forall_mem_map]
  refine ⟨accepted, fun r => ?_⟩
  rw [matches_iff_conditions parsed]
  refine and_congr_right fun mem => ⟨fun matched es there => ?_, fun matched g there => ?_⟩
  · obtain ⟨f, read⟩ := accepted es there
    exact (matches_iff_conditions read).2 ⟨mem, fun g inside => matched g ((same g).2 ⟨es, there, inside⟩)⟩
  · obtain ⟨es, listed, inside⟩ := (same g).1 there
    obtain ⟨f, read⟩ := accepted es listed
    exact ((matches_iff_conditions read).1 (matched es listed)).2 g inside

/-- In another order of its fields, and of the operators on them, a filter finds the same with every listing. -/
theorem find_reordered (orderly : w.Orderly) (found : w.current.table? c.name.text = some t) {es es' : Fields}
    (parsed : Filter.parse (.object es) = .ok f) (reorders : es.Reorders es') (fits : (c.predicate f).Fits)
    (fits' : c.Fits (.object es')) (l : Listing) :
    ((c.find (.object es') l).result w).1 = ((c.find (.object es) l).result w).1 := by
  have same : ∀ g, g ∈ (Json.object es).conditions ↔ g ∈ (Json.object es').conditions := fun _ => reorders.conditions_perm.mem_iff
  obtain ⟨g, parsed'⟩ := Filter.exists_parse_of_subset parsed fun g mem => (same g).2 mem
  refine find_congr orderly found parsed' parsed (fits' g parsed') fits (fun r => ?_) l
  rw [matches_iff_conditions parsed, matches_iff_conditions parsed']
  exact and_congr_right fun _ => forall_congr' fun g => imp_congr_left (same g).symm

end Collection

/-! ## Reachable stores -/

/-- In a store that starts without a database, wherever calls lead to: a filter that is accepted, and with which a search is within
the limits of the engine, selects what all its conditions select, each asking for one operator on one field, and what the filters
select together that its conditions are arranged into, if these are within the limits as well; so it is in another order of its
fields and operators, with which it finds the same with every listing. Where the promoted paths that the collection
knows are registered, the engine reads the clause of the filter, if it has a condition, as a condition with the truth of that
conjunction, and takes the values of the filter for it, each at its place. -/
theorem Host.conjoins_of_reached {disk : Disk} {settings : Settings} {ids : IdSource} {clock : Clock}
    {requests : List StoreRequest} (fresh : ∀ e ∈ disk.entries, ∀ f, e.2 ≠ .database f)
    (calls : ∀ r ∈ requests, r.Within fun _ => True) {h : Host}
    (reached : ((start disk settings ids clock).callAll requests).2 = h) {s : Store} (opened : h.store = some s)
    {name : String} {x : Session} (session : s.session? name = some x) {c : Collection} {t : Table}
    (found : (s.workspace x).current.table? c.name.text = some t) {filter : Json} {f : Filter}
    (parsed : Filter.parse filter = .ok f) (fits : (c.predicate f).Fits) :
    (∀ g ∈ filter.conditions, ∃ field operator operand, g = .asking field [(operator, operand)])
      ∧ c.Conjoins (s.workspace x) t filter filter.conditions
      ∧ (∀ others : List Fields, (∀ g, g ∈ filter.conditions ↔ ∃ es ∈ others, g ∈ (Json.object es).conditions) →
        (∀ es ∈ others, c.Fits (.object es)) → c.Conjoins (s.workspace x) t filter (others.map .object))
      ∧ (∀ es es' : Fields, filter = .object es → es.Reorders es' → c.Fits (.object es') → ∀ l,
        ((c.find (.object es') l).result (s.workspace x)).1 = ((c.find filter l).result (s.workspace x)).1)
      ∧ (c.resolver.promoted ⊆ ((s.workspace x).current.resolver c.name.text).promoted → filter.conditions ≠ [] →
        ∀ l, (c.predicate f).IsReadIn t l c.resolver) := by
  have good : h.Good fun db => db.Numbered ∧ db.Equipped :=
    good_of_reached (Database.kept_numbered.and kept_equipped) fresh calls reached
  have here := good.workspace opened session
  obtain ⟨numbered, equipped⟩ := here.current
  have numbered := numbered.tables t (Database.mem_of_table? found).1
  have read := Filter.mapM_parse_conditions parsed
  refine ⟨fun g mem => ?_, ?_, fun others same fitting => ?_, fun es es' eq reorders fits' l => ?_, fun registered some_ l => ?_⟩
  · obtain ⟨field, o, -, -, asks, -⟩ := Filter.exists_of_mem_conditions parsed mem
    exact ⟨field, o.1, o.2, asks⟩
  · have parts : ∀ g ∈ filter.conditions, ∃ part ∈ f.parts, Filter.parse g = .ok part := fun g mem =>
      exists_of_mem_mapM read mem
    refine Collection.conjoins_of_matches here.orderly numbered found parsed fits (fun g mem => ?_) (fun g mem part accepted => ?_)
      fun r => Collection.matches_iff_conditions parsed
    · obtain ⟨part, -, accepted⟩ := parts g mem
      exact ⟨part, accepted⟩
    · obtain ⟨part', there, accepted'⟩ := parts g mem
      cases accepted.symm.trans accepted'
      exact Filter.fits_part fits there
  · obtain ⟨accepts, rows⟩ := Collection.matches_arranged parsed same
    exact Collection.conjoins_of_matches here.orderly numbered found parsed fits accepts (List.forall_mem_map.2 fitting) rows
  · subst eq
    exact Collection.find_reordered here.orderly found parsed reorders fits fits' l
  · refine Filter.isReadIn (fun none => ?_) (fun path known => equipped.column? found (registered known)) l fits
    obtain ⟨g, mem⟩ := List.exists_mem_of_ne_nil _ some_
    obtain ⟨part, there, -⟩ := exists_of_mem_mapM read mem
    exact f.predicate_ne_nil there _ none

/-- A filter with two operators on a promoted path and one on the identifiers, and the same in another order. -/
def Json.late : Json :=
  .object [("rank", .object [("$gte", .string "b"), ("$exists", .bool true)]), ("_id", .object [("$gt", .string "x")])]
def Json.lateFirst : Json :=
  .object [("_id", .object [("$gt", .string "x")]), ("rank", .object [("$exists", .bool true), ("$gte", .string "b")])]

theorem Host.conjoins_of_reached_ranked : ∃ s x t f docs, ranked.store = some s ∧ s.session? "main" = some x
    ∧ Filter.parse .late = .ok f ∧ (Collection.ranks.predicate f).length = 3
    ∧ Collection.ranks.Conjoins (s.workspace x) t .late Json.late.conditions
    ∧ (Collection.ranks.predicate f).IsReadIn t .second Collection.ranks.resolver
    ∧ ((Collection.ranks.find .late .all).result (s.workspace x)).1 = .ok docs ∧ docs.map Document.id = ["z"]
    ∧ ((Collection.ranks.find .lateFirst .all).result (s.workspace x)).1 = .ok docs := by
  obtain ⟨s, x, t, -, opened, session, -, table, entries, -⟩ := exists_ranked
  have evaluated : (ranked.store.bind fun s => (s.session? "main").bind fun x =>
      ((Collection.ranks.find .late .all).result (s.workspace x)).1.toOption.map fun docs => docs.map Document.id)
      = some ["z"] := by decide +kernel
  rw [opened, Option.bind_some, session, Option.bind_some] at evaluated
  obtain ⟨docs, read, ids⟩ := Option.map_eq_some_iff.1 evaluated
  have given := eq_ok_of_toOption read
  have calls : ∀ r ∈ StoreRequest.ranking, r.Within fun _ => True := by
    simp [StoreRequest.ranking, StoreRequest.Within, Request.Within]
  cases parsed : Filter.parse .late with
  | error e => cases parsed
  | ok f =>
    obtain ⟨-, conjoins, -, reordered, reading⟩ :=
      conjoins_of_reached (Disk.start_fresh []) calls (h := ranked) (by rw [ranked, blank]) opened session table parsed (by cases parsed; decide)
    have registered := (Database.resolver_of_single entries).1
    have reorders : Fields.Reorders [("rank", .object [("$gte", .string "b"), ("$exists", .bool true)]),
        ("_id", .object [("$gt", .string "x")])] [("_id", .object [("$gt", .string "x")]),
          ("rank", .object [("$exists", .bool true), ("$gte", .string "b")])] :=
      ⟨_, .swap .., .cons ⟨rfl, .refl _⟩ (.cons ⟨rfl, .swap ..⟩ .nil)⟩
    have fits : Collection.ranks.Fits .lateFirst := fun f parsed => by
      cases parsed
      decide
    refine ⟨s, x, t, f, docs, opened, session, rfl, ?_, conjoins, ?_, given, ids, ?_⟩
    · cases parsed
      rfl
    · exact reading (fun _ known => registered ▸ known) (by decide) .second
    · exact (reordered _ _ rfl reorders fits .all).trans given

/-- Each condition of a filter for so many fields selects documents, and the filter itself is refused. -/
theorem Host.unconjoined : ∃ s x docs, kinds.store = some s ∧ s.session? "main" = some x
    ∧ Collection.kinds.Selects (s.workspace x) (.object []) docs
    ∧ (∀ g ∈ (Json.nulls 999).conditions, ∃ docs, Collection.kinds.Selects (s.workspace x) g docs)
    ∧ ((Collection.kinds.find (.nulls 999) .all).result (s.workspace x)).1
      = .error (.ofEngine (.failure "statement too large")) := by
  obtain ⟨s, x, t, all, opened, session, orderly, shows, -⟩ := exists_kinds
  obtain ⟨f, parsed, length, terms⟩ := Filter.exists_parse_nulls (show 999 ≤ 1000 by decide)
  have deep := Filter.length_lt_depth terms (by rintro empty; rw [empty] at length; cases length)
  have excess : (Statement.count (f.predicate ⟨[]⟩)).isWithinLimits = false := by
    rw [Bool.eq_false_iff]
    intro within
    have room : (f.predicate ⟨[]⟩).depth ≤ 1000 := (Statement.isWithinLimits_iff.1 within).2.1
    omega
  refine ⟨s, x, all, opened, session, Collection.selects_all orderly shows, fun g mem => ?_,
    Collection.find_of_excess (c := Collection.kinds) orderly parsed excess .all⟩
  obtain ⟨part, there, accepted⟩ := Outcome.exists_of_mem_mapM (Filter.mapM_parse_conditions parsed) mem
  obtain ⟨t, listed, eq⟩ := Filter.exists_term_of_part there ⟨[]⟩
  have fits : (part.predicate ⟨[]⟩).Fits := by
    rw [eq]
    exact Filter.fits_of_nulls (List.forall_mem_singleton.2 (terms t listed)) (show 4 ≤ limits.depth by decide)
  obtain ⟨docs, -, -, selects⟩ := Collection.exists_selects orderly shows accepted (.of_fits fits)
  exact ⟨docs, selects⟩

end Dossier
