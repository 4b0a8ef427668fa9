import Dossier.Proofs.Collection.Selecting
import Dossier.Proofs.Statement.Executing
import Dossier.Proofs.Store.Registry

/-!
# One selection on reachable stores

`Host.selects_of_reached`: in every store that calls lead to, all calls that read or delete are about one selection of the
documents of a collection, in the order of their insertion, as far as their statements fit. The engine that reads the texts of these
statements finds, counts and deletes the same.
-/

namespace Dossier

open Dossier.Action Outcome Text
open Sql (limits)

/-- In a store that starts without a database, wherever calls lead to and a collection's rows decode as documents: these
have distinct identifiers and stand in the order of the numbers of their rows. Every filter that is accepted and whose
statements fit selects some of them, on which finding, finding one and counting agree; where the lock does not bar it,
deleting all takes out these, and deleting one, if that statement fits too, the first of these, and counts them. Where the promoted
paths that the collection knows are registered, this is what the engine makes of the texts of the statements and their values. -/
theorem Host.selects_of_reached {disk : Disk} {settings : Settings} {ids : IdSource} {clock : Clock}
    {requests : List StoreRequest} (fresh : ∀ e ∈ disk.entries, ∀ f, e.2 ≠ .database f)
    (calls : ∀ r ∈ requests, r.Within fun _ => True) {h : Host}
    (reached : ((start disk settings ids clock).callAll requests).2 = h) {s : Store} (opened : h.store = some s)
    {name : String} {x : Session} (session : s.session? name = some x) {c : Collection} {t : Table} {all : List Document}
    (shows : (s.workspace x).Shows c.name t all) {filter : Json} {f : Filter} (parsed : Filter.parse filter = .ok f)
    (fits : (c.predicate f).Fits) : (t.rows.Pairwise fun r r' => r.rowid < r'.rowid) ∧ all.map Document.id = t.rows.map Row.id
      ∧ (all.map Document.id).Nodup ∧ c.Selects (s.workspace x) (.object []) all
      ∧ (c.resolver.promoted ⊆ ((s.workspace x).current.resolver c.name.text).promoted →
        Statement.Executed (c.predicate f) (s.workspace x).current c.name c.resolver)
      ∧ ∃ docs, docs.Sublist all ∧ c.Selects (s.workspace x) filter docs
        ∧ ((s.workspace x).Barred → ∀ cardinality, (c.delete filter cardinality).result (s.workspace x)
          = (.error (.ofEngine Connection.locked), s.workspace x))
        ∧ (¬ (s.workspace x).Barred →
          (∃ v, (c.delete filter .many).result (s.workspace x) = (.ok docs.length, v)
            ∧ c.Selects v (.object []) (all.filter fun d => !(docs.map Document.id).contains d.id))
          ∧ ((Statement.delete (c.predicate f) .one).Fits →
            (∀ d rest, docs = d :: rest → ∃ v, (c.delete filter .one).result (s.workspace x) = (.ok 1, v)
              ∧ c.Selects v (.object []) (all.filter fun other => !decide (other.id = d.id)))
            ∧ (docs = [] → ∃ v, (c.delete filter .one).result (s.workspace x) = (.ok 0, v) ∧ v.Kept (s.workspace x)
              ∧ v.current = (s.workspace x).current))) := by
  have good : h.Good fun db => db.Numbered ∧ db.Equipped ∧ db.Unshadowed :=
    good_of_reached (Database.kept_numbered.and (kept_equipped.and kept_unshadowed)) fresh calls reached
  have here := good.workspace opened session
  obtain ⟨counted, equipped, unshadowed⟩ := here.current
  have there := (Database.mem_of_table? shows.found).1
  have numbered := counted.tables t there
  have same := Collection.ids_of_decodes shows.decodes
  have number : t.column? orderColumn = some .rowid := Database.Unshadowed.column?_orderColumn (unshadowed t there)
  refine ⟨numbered.rowids, same, same ▸ numbered.nodup_ids, Collection.selects_all here.orderly shows, fun registered => ?_, ?_⟩
  · exact Statement.executed_filter shows.found number numbered (fun path known => equipped.column? shows.found (registered known)) fits
  obtain ⟨docs, decodes, sub, selects⟩ := Collection.exists_selects here.orderly shows parsed (.of_fits fits)
  refine ⟨docs, sub, selects, fun barred cardinality => ?_, fun free => ?_⟩
  · rw [Collection.delete, result_bind, Collection.result_readFilter parsed]
    exact write_of_barred barred _
  have deletes {cardinality : Cardinality} (fits : (Statement.delete (c.predicate f) cardinality).Fits) {gone : List Document}
      (decodes : (t.targets (c.predicate f) cardinality).mapM Row.document = .ok gone) :=
    Collection.delete_of_selects here.orderly free counted shows parsed fits decodes
  have first := Outcome.mapM_take 1 decodes
  refine ⟨?_, fun fits => ⟨fun d rest eq => ?_, fun none => ?_⟩⟩
  · have all : (Statement.delete (c.predicate f) .many).Fits := fits
    obtain ⟨v, deleted, -, left, -⟩ := deletes all decodes
    exact ⟨v, deleted, left⟩
  · subst eq
    obtain ⟨v, deleted, -, left, -⟩ := deletes fits first
    refine ⟨v, deleted, ?_⟩
    simpa [List.contains_iff_mem] using left
  · subst none
    obtain ⟨v, deleted, kept, -, unchanged⟩ := deletes fits first
    exact ⟨v, deleted, kept, unchanged rfl⟩

/-- A call that inserts a document with an identifier and a kind. -/
def StoreRequest.insertKind (id kind : String) : StoreRequest :=
  .session "main" (.within "kinds" (.insertOne (.object [("_id", .string id), ("kind", .string kind)])))

/-- Calls that insert three documents, two of them of one kind. -/
def StoreRequest.threeKinds : List StoreRequest :=
  [.reopen none, .insertKind "x" "old", .insertKind "y" "new", .insertKind "z" "new"]

/-- The host after these calls. -/
def Host.kinds : Host := (blank.callAll StoreRequest.threeKinds).2

/-- The collection of the documents. -/
def Collection.kinds : Collection := ⟨⟨"kinds", by decide⟩, ⟨[]⟩⟩

/-- The filter for the two. -/
def Json.newKind : Json := .object [("kind", .string "new")]

/-- These calls lead to a store that shows the three documents, two of which the filter is for. -/
theorem Host.exists_kinds : ∃ s x t all, kinds.store = some s ∧ s.session? "main" = some x ∧ (s.workspace x).Orderly
    ∧ (s.workspace x).Shows Collection.kinds.name t all ∧ all.length = 3
    ∧ ((Collection.kinds.count .newKind).result (s.workspace x)).1.toOption = some 2 ∧ ¬ (s.workspace x).Barred := by
  have evaluated : (kinds.store.bind fun s => (s.session? "main").bind fun x =>
      ((s.workspace x).current.table? "kinds").map fun t => ((t.rows.mapM Row.document).toOption.map List.length,
        ((Collection.kinds.count .newKind).result (s.workspace x)).1.toOption, (s.workspace x).connection.isLocked))
      = some (some 3, some 2, false) := by decide +kernel
  obtain ⟨s, x, opened, session, found⟩ := Host.exists_session_of_bind evaluated
  obtain ⟨t, table, eq⟩ := Option.map_eq_some_iff.1 found
  obtain ⟨read, rest⟩ := Prod.mk.inj eq
  obtain ⟨counted, unlocked⟩ := Prod.mk.inj rest
  have calls : ∀ r ∈ StoreRequest.threeKinds, r.Within fun _ => True := by
    simp [StoreRequest.threeKinds, StoreRequest.insertKind, StoreRequest.Within, Request.Within]
  have good : kinds.Good Database.Numbered := good_of_reached Database.kept_numbered (Disk.start_fresh []) calls (by rw [kinds, blank])
  cases decodes : t.rows.mapM Row.document with
  | error e =>
    rw [decodes] at read
    cases read
  | ok all =>
    rw [decodes] at read
    exact ⟨s, x, t, all, opened, session, (good.workspace opened session).orderly, ⟨table, decodes⟩, Option.some.inj read, counted,
      fun barred => absurd barred.2 (by simp [unlocked])⟩

theorem Host.selects_of_reached_kinds : ∃ s x all docs, kinds.store = some s ∧ s.session? "main" = some x
    ∧ Collection.kinds.Selects (s.workspace x) (.object []) all ∧ all.length = 3
    ∧ (∃ f, Filter.parse .newKind = .ok f
      ∧ Statement.Executed (Collection.kinds.predicate f) (s.workspace x).current Collection.kinds.name Collection.kinds.resolver)
    ∧ Collection.kinds.Selects (s.workspace x) .newKind docs ∧ docs.length = 2
    ∧ ∀ d rest, docs = d :: rest → ∃ v, (Collection.kinds.delete .newKind .one).result (s.workspace x) = (.ok 1, v)
      ∧ Collection.kinds.Selects v (.object []) (all.filter fun other => !decide (other.id = d.id)) := by
  obtain ⟨s, x, t, all, opened, session, -, shows, three, counted, free⟩ := exists_kinds
  cases parsed : Filter.parse .newKind with
  | error e => cases parsed
  | ok f =>
    have calls : ∀ r ∈ StoreRequest.threeKinds, r.Within fun _ => True := by
      simp [StoreRequest.threeKinds, StoreRequest.insertKind, StoreRequest.Within, Request.Within]
    obtain ⟨-, -, -, whole, executed, docs, -, selects, -, deletes⟩ :=
      selects_of_reached (Disk.start_fresh []) calls (h := kinds) (by rw [kinds, blank]) opened session shows parsed
        (by cases parsed; decide)
    have two : docs.length = 2 := by
      rw [selects.count] at counted
      exact Int.ofNat.inj (Option.some.inj counted)
    have known : Collection.kinds.resolver.promoted ⊆ ((s.workspace x).current.resolver Collection.kinds.name.text).promoted :=
      List.nil_subset _
    exact ⟨s, x, all, docs, opened, session, whole, three, ⟨f, rfl, executed known⟩, selects, two, ((deletes free).2 (by cases parsed; decide)).1⟩

/-! ## Many conditions -/

/-- A filter for so many fields, each of which has to be null. -/
def Json.nulls (n : Nat) : Json := .object (((List.range n).map Listing.natText).map fun name => (name, .null))

theorem FieldRef.parse_natText {k : Nat} (short : k < 1000) : ∃ path, FieldRef.parse (Listing.natText k) = .ok (.body path) := by
  obtain ⟨path, plain, -⟩ := FieldPath.parse_natText short
  have apart : ∀ name ∈ ["_id", "id", "created_at", "updated_at"], Listing.natText k ≠ name := Listing.natText_ne k
  simp only [List.forall_mem_cons] at apart
  have system : systemColumn? (Listing.natText k) = none := by
    simp [systemColumn?, idFields, apart.1, apart.2.1, apart.2.2.1, apart.2.2.2.1]
  exact ⟨path, by rw [FieldRef.parse, system, plain]; rfl⟩

theorem Clause.exists_mapM_parse_null {names : List String} (all : ∀ name ∈ names, ∃ path, FieldRef.parse name = .ok (.body path)) :
    ∃ clauses, (names.map fun name => (name, Json.null)).mapM (fun e => Clause.parse e.1 e.2) = .ok clauses
      ∧ ((⟨clauses⟩ : Filter).predicate ⟨[]⟩).length = names.length
      ∧ ∀ t ∈ (⟨clauses⟩ : Filter).predicate ⟨[]⟩, ∃ path, t = .isNull (.extract path) := by
  induction names with
  | nil => exact ⟨[], rfl, rfl, nofun⟩
  | cons name rest ih =>
    obtain ⟨⟨path, known⟩, later⟩ := List.forall_mem_cons.1 all
    obtain ⟨clauses, read, length, terms⟩ := ih later
    have clause : Clause.parse name .null = .ok ⟨name, .body path, [.compare .eq .null]⟩ := by
      rw [Clause.parse, known]
      rfl
    have first : (⟨⟨name, .body path, [.compare .eq .null]⟩ :: clauses⟩ : Filter).predicate ⟨[]⟩
        = .isNull (.extract path) :: (⟨clauses⟩ : Filter).predicate ⟨[]⟩ := rfl
    refine ⟨_, mapM_cons_eq_ok.2 ⟨_, _, clause, read, rfl⟩, ?_, ?_⟩
    · rw [first, List.length_cons, List.length_cons, length]
    · rw [first]
      exact List.forall_mem_cons.2 ⟨⟨path, rfl⟩, terms⟩

namespace Filter

/-- Fields that have to be null are accepted as a filter; each is a term. -/
theorem exists_parse_nulls {n : Nat} (short : n ≤ 1000) : ∃ f, parse (.nulls n) = .ok f
    ∧ (f.predicate ⟨[]⟩).length = n ∧ ∀ t ∈ f.predicate ⟨[]⟩, ∃ path, t = .isNull (.extract path) := by
  have all : ∀ name ∈ (List.range n).map Listing.natText, ∃ path, FieldRef.parse name = .ok (.body path) := by
    refine List.forall_mem_map.2 fun k mem => FieldRef.parse_natText ?_
    have := List.mem_range.1 mem
    omega
  obtain ⟨clauses, read, length, terms⟩ := Clause.exists_mapM_parse_null all
  refine ⟨⟨clauses⟩, ?_, by simpa using length, terms⟩
  rw [Json.nulls, parse, read]
  rfl

variable {p : Predicate} (terms : ∀ t ∈ p, ∃ path, t = .isNull (.extract path))

include terms

/-- Such terms fit if they are few. -/
theorem fits_of_nulls (few : p.length + 3 ≤ limits.depth) : p.Fits := by
  have params : p.params = [] := List.flatMap_eq_nil_iff.2 fun t mem => by
    obtain ⟨path, rfl⟩ := terms t mem
    rfl
  refine Statement.fits_of_length few (params ▸ Nat.zero_le _) fun t mem => ?_
  obtain ⟨path, rfl⟩ := terms t mem
  rfl

/-- They make a conjunction that is as deep as they are many, and more. -/
theorem length_lt_depth (some_ : p ≠ []) : p.length + 2 ≤ p.depth := by
  obtain ⟨t, ts, rfl⟩ := List.exists_cons_of_ne_nil some_
  have deep := Predicate.le_depth_cons fun u mem => by
    obtain ⟨path, rfl⟩ := terms u mem
    rfl
  obtain ⟨path, rfl⟩ := terms t List.mem_cons_self
  have three : (Term.isNull (.extract path)).depth = 3 := rfl
  rw [three] at deep
  rw [List.length_cons]
  omega

end Filter

/-- With a filter for so many fields finding and counting select documents, and deleting one of them fails. -/
theorem Host.undeleted : ∃ s x docs, kinds.store = some s ∧ s.session? "main" = some x
    ∧ Collection.kinds.Selects (s.workspace x) (.nulls 600) docs
    ∧ ((Collection.kinds.delete (.nulls 600) .one).result (s.workspace x)).1
      = .error (.ofEngine (.failure "statement too large")) := by
  obtain ⟨s, x, t, all, opened, session, orderly, shows, -, -, free⟩ := exists_kinds
  obtain ⟨f, parsed, length, terms⟩ := Filter.exists_parse_nulls (show 600 ≤ 1000 by decide)
  have fits : (f.predicate ⟨[]⟩).Fits := Filter.fits_of_nulls terms (by rw [length]; decide)
  have deep := Filter.length_lt_depth terms (by rintro empty; rw [empty] at length; cases length)
  obtain ⟨docs, -, -, selects⟩ := Collection.exists_selects orderly shows parsed (.of_fits fits)
  have excess : (Statement.delete (f.predicate ⟨[]⟩) .one).isWithinLimits = false := by
    rw [Bool.eq_false_iff]
    intro within
    have room : 2 * (f.predicate ⟨[]⟩).depth + 2 ≤ 1000 := (Statement.isWithinLimits_iff.1 within).2.1
    omega
  exact ⟨s, x, docs, opened, session, selects, Collection.delete_of_excess orderly free parsed excess⟩

end Dossier
