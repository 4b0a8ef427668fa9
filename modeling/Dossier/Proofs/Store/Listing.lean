import Dossier.Proofs.Database.Sorting
import Dossier.Proofs.Store.Equality

/-!
# Listings on reachable stores

`Host.lists_of_reached`: in every store that calls lead to, finding with a listing gives a stretch of what finding without one
gives, arranged by the keys. `Host.unlisted` is a limit that the engine does not take.
-/

namespace Dossier

open Dossier.Action Outcome
open Sql (limits)

namespace Listing

variable {l : Listing} {α β : Type} {rows : List α}

/-- The engine takes the limit, and the skip where anything is listed at all. -/
def Fits (l : Listing) : Prop :=
  (∀ n ∈ l.limit, n ≤ pageLimit) ∧ (l.limit = some 0 ∨ ∀ n ∈ l.skip, n ≤ pageLimit)

/-- The elements that are left when as many as skipped are dropped and no more than the limit are taken. -/
def stretch (l : Listing) (rows : List α) : List α :=
  match l.limit with
  | none => rows.drop (l.skip.getD 0)
  | some n => (rows.drop (l.skip.getD 0)).take n

theorem any_tooGreat {o : Option Nat} : o.any (fun n => decide (pageLimit < n)) = false ↔ ∀ n ∈ o, n ≤ pageLimit := by
  cases o <;> simp

theorem page_of_fits (fits : l.Fits) (rows : List α) : l.page rows = .ok (l.stretch rows) := by
  obtain ⟨limit, skip⟩ := fits
  unfold page stretch
  simp only [any_tooGreat.2 limit, Bool.false_eq_true, if_false]
  split
  · rename_i zero
    rw [zero]
    rfl
  · rename_i positive
    rw [any_tooGreat.2 (skip.resolve_left positive)]
    cases l.limit <;> rfl

theorem apply_of_few {r : Resolver} {rows : List Row} (few : l.keys.length < limits.orderTerms) :
    l.apply r rows = l.page (l.sorted r rows) := if_neg (Nat.not_lt.2 few)

theorem apply_of_many {r : Resolver} {rows : List Row} (many : ¬ l.keys.length < limits.orderTerms) :
    l.apply r rows = .error (.failure "too many terms in ORDER BY clause") := if_pos (Nat.lt_succ_of_le (Nat.not_lt.1 many))

theorem page_of_not_fits (excess : ¬ l.Fits) (rows : List α) : l.page rows = .error (.failure "datatype mismatch") := by
  unfold page
  simp only
  split
  · rfl
  · rename_i limit
    have limit := any_tooGreat.1 (Bool.eq_false_iff.2 limit)
    rw [if_neg fun zero => excess ⟨limit, .inl zero⟩, if_pos]
    by_contra skip
    exact excess ⟨limit, .inr (any_tooGreat.1 (Bool.eq_false_iff.2 skip))⟩

theorem mapM_stretch {ε : Type} {f : α → Except ε β} {ys : List β} (l : Listing) (made : rows.mapM f = .ok ys) :
    (l.stretch rows).mapM f = .ok (l.stretch ys) := by
  unfold stretch
  cases l.limit with
  | none => exact mapM_drop _ made
  | some n => exact mapM_take n (mapM_drop _ made)

end Listing

/-- A field is read as it is, if the column of a promoted path mirrors the body. -/
theorem Row.read_eq_field {row : Row} {r : Resolver} {field : FieldRef} (mirrored : ∀ path, field = .body path →
    path ∈ r.promoted → row.promotedValue path.column = row.data.extract path) : row.read (r.operand field) = row.field field := by
  cases field with
  | system column => cases column <;> rfl
  | body path => exact read_operand (mirrored path rfl)

namespace Collection

variable {c : Collection} {w : Workspace} {t : Table} {filter : Json} {f : Filter} {docs : List Document} {l : Listing}

/-- Finding fails as the listing does. -/
theorem find_of_error (orderly : w.Orderly) (found : w.current.table? c.name.text = some t)
    (parsed : Filter.parse filter = .ok f) (takes : w.current.Takes c.name (c.predicate f)) {e : EngineError}
    (refused : l.apply c.resolver (t.select (c.predicate f)) = .error e) :
    ((c.find filter l).result w).1 = .error (.ofEngine e) := by
  have answers : (w.current.run c.name c.resolver (.find (c.predicate f) l)).map (·.1) = .error e := by
    rw [takes.find, Database.answer, Database.tableOf_eq_ok.2 found, ok_bind, refused]
    rfl
  obtain ⟨v, ran, -⟩ := exists_read orderly fun db => (db.run c.name c.resolver (.find (c.predicate f) l)).map (·.1)
  rw [find, result_bind, result_readFilter parsed]
  simp only
  rw [result_bind, execute, Action.execute, ran, answers]
  rfl

/-- Where finding gives documents, the engine takes the filter. -/
theorem takes_of_find (orderly : w.Orderly) (parsed : Filter.parse filter = .ok f)
    (given : ((c.find filter .all).result w).1 = .ok docs) : w.current.Takes c.name (c.predicate f) := by
  obtain ⟨v, ran, -⟩ := exists_read orderly fun db => (db.run c.name c.resolver (.find (c.predicate f) .all)).map (·.1)
  rw [find, result_bind, result_readFilter parsed] at given
  simp only at given
  rw [result_bind, execute, Action.execute, ran] at given
  cases made : w.current.run c.name c.resolver (.find (c.predicate f) .all) with
  | ok x => exact .of_find made
  | error e =>
    rw [made] at given
    cases given

/-- Finding with a listing gives a stretch of the documents of the rows that it arranges. -/
theorem find_listed (orderly : w.Orderly) (numbered : t.Numbered) (found : w.current.table? c.name.text = some t)
    (parsed : Filter.parse filter = .ok f) (takes : w.current.Takes c.name (c.predicate f))
    (decodes : (t.select (c.predicate f)).mapM Row.document = .ok docs)
    (faithful : ∀ row ∈ t.rows, SortKey.Faithful c.resolver l.keys row) :
    ∃ arranged listed, SortKey.Arranges l.keys (t.select (c.predicate f)) arranged ∧ arranged.mapM Row.document = .ok listed
      ∧ (l.keys.length < limits.orderTerms → (l.Fits → ((c.find filter l).result w).1 = .ok (l.stretch listed))
        ∧ (¬ l.Fits → ((c.find filter l).result w).1 = .error (.ofEngine (.failure "datatype mismatch"))))
      ∧ (¬ l.keys.length < limits.orderTerms →
        ((c.find filter l).result w).1 = .error (.ofEngine (.failure "too many terms in ORDER BY clause"))) := by
  have arranges : SortKey.Arranges l.keys (t.select (c.predicate f)) (l.sorted c.resolver (t.select (c.predicate f))) :=
    Listing.arranges_sorted c.resolver (fun row mem => faithful row (List.mem_filter.1 mem).1)
      (numbered.rowids.sublist List.filter_sublist)
  obtain ⟨listed, made⟩ : ∃ listed, (l.sorted c.resolver (t.select (c.predicate f))).mapM Row.document = .ok listed := by
    refine exists_mapM fun row mem => ?_
    obtain ⟨d, -, document⟩ := exists_of_mem_mapM decodes (arranges.perm.subset mem)
    exact ⟨d, document⟩
  refine ⟨_, listed, arranges, made, fun few => ⟨fun fits => ?_, fun excess => ?_⟩, fun many => ?_⟩
  · rw [find_eq orderly found parsed takes ((Listing.apply_of_few few).trans (Listing.page_of_fits fits _))]
    exact Listing.mapM_stretch l made
  · exact find_of_error orderly found parsed takes ((Listing.apply_of_few few).trans (Listing.page_of_not_fits excess _))
  · exact find_of_error orderly found parsed takes (Listing.apply_of_many many)

end Collection

/-! ## Reachable stores -/

/-- In a store that starts without a database, wherever calls lead to, for a filter with which finding gives documents and for
every listing whose keys name promoted paths without rivals, or other fields: the rows of these documents stand in the order of
their insertion, there is one arrangement of them by the keys, its rows decode, and finding with the listing gives the stretch
of their documents that the skip and the limit leave. A limit or a skip of more than 63 bits is refused, and so are more keys
than the engine orders by. -/
theorem Host.lists_of_reached {disk : Disk} {settings : Settings} {ids : IdSource} {clock : Clock}
    {requests : List StoreRequest} (fresh : ∀ e ∈ disk.entries, ∀ f, e.2 ≠ .database f)
    (calls : ∀ r ∈ requests, r.Within (· ≠ .freeze)) {h : Host}
    (reached : ((start disk settings ids clock).callAll requests).2 = h) {s : Store} (opened : h.store = some s)
    {name : String} {x : Session} (session : s.session? name = some x) {c : Collection}
    (resolves : c.resolver.promoted ⊆ ((s.workspace x).current.resolver c.name.text).promoted) {t : Table}
    (found : (s.workspace x).current.table? c.name.text = some t) {filter : Json} {f : Filter}
    (parsed : Filter.parse filter = .ok f) {docs : List Document}
    (given : ((c.find filter .all).result (s.workspace x)).1 = .ok docs) {l : Listing}
    (alone : ∀ key ∈ l.keys, ∀ path, key.field = .body path → path ∈ c.resolver.promoted →
      ∀ q ∈ (s.workspace x).current.promotions, ¬ Site.Rival ⟨c.name.text, path⟩ q.site) :
    (t.select (c.predicate f)).mapM Row.document = .ok docs
      ∧ (t.select (c.predicate f)).Pairwise (fun r r' => r.rowid < r'.rowid)
      ∧ ∃ arranged listed, SortKey.Arranges l.keys (t.select (c.predicate f)) arranged
        ∧ (∀ other, SortKey.Arranges l.keys (t.select (c.predicate f)) other → other = arranged)
        ∧ arranged.mapM Row.document = .ok listed
        ∧ (l.keys.length < limits.orderTerms →
          (l.Fits → ((c.find filter l).result (s.workspace x)).1 = .ok (l.stretch listed))
          ∧ (¬ l.Fits → ((c.find filter l).result (s.workspace x)).1 = .error (.ofEngine (.failure "datatype mismatch"))))
        ∧ (¬ l.keys.length < limits.orderTerms →
          ((c.find filter l).result (s.workspace x)).1 = .error (.ofEngine (.failure "too many terms in ORDER BY clause"))) := by
  have kept : Kept (fun db => db.Mirroring ∧ db.Numbered) (· ≠ .freeze) :=
    kept_mirroring.and (Database.kept_numbered.mono fun _ _ => trivial)
  have good : h.Good fun db => db.Mirroring ∧ db.Numbered := good_of_reached kept fresh calls reached
  have here := good.workspace opened session
  obtain ⟨mirroring, numbered⟩ := here.current
  have numbered := numbered.tables t (Database.mem_of_table? found).1
  have takes := Collection.takes_of_find here.orderly parsed given
  have decodes := (Collection.find_all here.orderly found parsed takes).symm.trans given
  have faithful : ∀ row ∈ t.rows, SortKey.Faithful c.resolver l.keys row := fun row mem key listed =>
    Row.read_eq_field fun path field promoted =>
      mirroring.mirrored found (resolves promoted) (alone key listed path field promoted) row mem
  refine ⟨decodes, numbered.rowids.sublist List.filter_sublist, ?_⟩
  obtain ⟨arranged, listed, arranges, made, answers⟩ := Collection.find_listed here.orderly numbered found parsed takes decodes faithful
  exact ⟨arranged, listed, arranges, fun _ other => other.unique arranges, made, answers⟩

/-- Calls that insert three documents, two of them of one rank, and promote the path of the ranks. -/
def StoreRequest.ranking : List StoreRequest :=
  [.reopen none, .session "main" (.within "ranks" (.insertMany
    [.object [("_id", .string "x"), ("rank", .string "b")], .object [("_id", .string "y"), ("rank", .string "a")],
      .object [("_id", .string "z"), ("rank", .string "b")]])),
    .session "main" (.within "ranks" (.promote "rank" false))]

/-- The host after these calls. -/
def Host.ranked : Host := (blank.callAll StoreRequest.ranking).2

/-- The path of the ranks, and their collection. -/
def FieldPath.rank : FieldPath := ⟨["rank"], by decide, by decide⟩
def Collection.ranks : Collection := ⟨⟨"ranks", by decide⟩, ⟨[.rank]⟩⟩

/-- The second document when the greatest rank comes first and then what was made first. -/
def Listing.second : Listing := ⟨some [⟨.body .rank, .descending⟩, ⟨.system .createdAt, .ascending⟩], some 1, some 1⟩

/-- These calls lead to a store in which the three documents are found, and which row comes before which. -/
theorem Host.exists_ranked : ∃ s x t docs, ranked.store = some s ∧ s.session? "main" = some x ∧ (s.workspace x).Orderly
    ∧ (s.workspace x).current.table? Collection.ranks.name.text = some t
    ∧ (s.workspace x).current.promotions.map (fun p => (p.collection, p.path)) = [("ranks", .rank)]
    ∧ ((Collection.ranks.find .null .all).result (s.workspace x)).1 = .ok docs
    ∧ t.rows.mapM Row.document = .ok docs ∧ docs.map Document.id = ["x", "y", "z"]
    ∧ t.rows.map (fun a => t.rows.map fun b => decide (SortKey.Before Listing.second.keys a b))
      = [[false, true, true], [false, false, false], [false, true, false]] := by
  have idle : (ranked.store.bind fun s => (s.session? "main").map fun x => (x.transaction.isNone, x.depth))
      = some (true, 0) := by decide +kernel
  have evaluated : (ranked.store.bind fun s => (s.session? "main").bind fun x =>
      ((s.workspace x).current.table? Collection.ranks.name.text).map fun t => (
        (s.workspace x).current.promotions.map fun p => (p.collection, p.path),
        (t.rows.mapM Row.document).toOption.map fun docs => docs.map Document.id,
        t.rows.map fun a => t.rows.map fun b => decide (SortKey.Before Listing.second.keys a b)))
      = some ([("ranks", .rank)], some ["x", "y", "z"],
        [[false, true, true], [false, false, false], [false, true, false]]) := by decide +kernel
  obtain ⟨s, x, opened, session, found⟩ := Host.exists_session_of_bind evaluated
  obtain ⟨t, table, eq⟩ := Option.map_eq_some_iff.1 found
  obtain ⟨entries, rest⟩ := Prod.mk.inj eq
  obtain ⟨read, compared⟩ := Prod.mk.inj rest
  obtain ⟨docs, decodes, ids⟩ := Option.map_eq_some_iff.1 read
  obtain ⟨transaction, depth⟩ : x.transaction.isNone = true ∧ x.depth = 0 := by
    simpa [opened, session] using idle
  have orderly : (s.workspace x).Orderly := by
    simp [Workspace.Orderly, Store.workspace, Option.isNone_iff_eq_none.1 transaction, depth]
  have parsed : Filter.parse .null = .ok ⟨[]⟩ := rfl
  have given : ((Collection.ranks.find .null .all).result (s.workspace x)).1 = .ok docs := by
    rw [Collection.find_all orderly table parsed (.of_fits Predicate.fits_nil), ← eq_ok_of_toOption decodes]
    exact congrArg (List.mapM Row.document) t.select_nil
  exact ⟨s, x, t, docs, opened, session, orderly, table, entries, given, eq_ok_of_toOption decodes, ids, compared⟩

/-- Of the two documents of the greater rank the later one is second. -/
theorem Host.lists_of_reached_ranked : ∃ s x d, ranked.store = some s ∧ s.session? "main" = some x
    ∧ ((Collection.ranks.find .null .second).result (s.workspace x)).1 = .ok [d] ∧ d.id = "z" := by
  obtain ⟨s, x, t, docs, opened, session, orderly, table, entries, given, decodes, ids, compared⟩ := exists_ranked
  obtain ⟨registered, single⟩ := Database.resolver_of_single entries
  have resolves : Collection.ranks.resolver.promoted
      ⊆ ((s.workspace x).current.resolver Collection.ranks.name.text).promoted := fun _ known => registered ▸ known
  have alone : ∀ key ∈ Listing.second.keys, ∀ path, key.field = .body path → path ∈ Collection.ranks.resolver.promoted →
      ∀ q ∈ (s.workspace x).current.promotions, ¬ Site.Rival ⟨"ranks", path⟩ q.site := by
    rintro key - path - promoted ⟨collection, path', unique⟩ known rival
    obtain rfl := List.mem_singleton.1 promoted
    obtain ⟨rfl, rfl⟩ := single _ known
    exact rival.2 (.refl _)
  have calls : ∀ r ∈ StoreRequest.ranking, r.Within (· ≠ .freeze) := by
    simp [StoreRequest.ranking, StoreRequest.Within, Request.Within]
  have parsed : Filter.parse .null = .ok ⟨[]⟩ := rfl
  obtain ⟨-, -, arranged, listed, -, only, made, answers, -⟩ :=
    lists_of_reached (Disk.start_fresh []) calls (h := ranked) (by rw [ranked, blank]) opened session resolves table parsed
      given alone
  have whole : t.select (Collection.ranks.predicate ⟨[]⟩) = t.rows := t.select_nil
  have three : t.rows.length = 3 := by simpa using congrArg List.length compared
  obtain ⟨r₁, r₂, r₃, rows⟩ := List.length_eq_three.1 three
  simp only [rows, List.map_cons, List.map_nil, List.cons.injEq, decide_eq_true_eq, decide_eq_false_iff_not, and_true]
    at compared
  rw [whole, rows] at only
  rw [rows] at decodes
  -- The keys put the first row and the third, in their order, before the second.
  obtain rfl : [r₁, r₃, r₂] = arranged := only _ ⟨.cons _ (.swap ..), by simp [compared]⟩
  obtain ⟨d₁, others, first, later, rfl⟩ := mapM_cons_eq_ok.1 decodes
  obtain ⟨d₂, others, second, last, rfl⟩ := mapM_cons_eq_ok.1 later
  obtain ⟨d₃, others, third, -, rfl⟩ := mapM_cons_eq_ok.1 last
  obtain rfl : [d₁, d₃, d₂] = listed := by
    simpa [List.mapM_cons, first, second, third, ok_bind] using made
  have fits : Listing.second.Fits := by simp [Listing.Fits, Listing.second, Listing.pageLimit]
  refine ⟨s, x, d₃, opened, session, (answers (by decide)).1 fits, ?_⟩
  simp only [List.map_cons, List.cons.injEq] at ids
  exact ids.2.2.1

/-- A limit of 64 bits is not taken where every document is found without it. -/
theorem Host.unlisted : ∃ s x docs, ranked.store = some s ∧ s.session? "main" = some x ∧ docs.length = 3
    ∧ ((Collection.ranks.find .null .all).result (s.workspace x)).1 = .ok docs
    ∧ ((Collection.ranks.find .null ⟨none, some 0x8000000000000000, none⟩).result (s.workspace x)).1
      = .error (.ofEngine (.failure "datatype mismatch")) := by
  obtain ⟨s, x, t, docs, opened, session, orderly, table, -, given, -, ids, -⟩ := exists_ranked
  have excess : ¬ (⟨none, some 0x8000000000000000, none⟩ : Listing).Fits := by simp [Listing.Fits, Listing.pageLimit]
  have parsed : Filter.parse .null = .ok ⟨[]⟩ := rfl
  exact ⟨s, x, docs, opened, session, by simpa using congrArg List.length ids, given,
    Collection.find_of_error orderly table parsed (.of_fits Predicate.fits_nil)
      ((Listing.apply_of_few (by decide)).trans (Listing.page_of_not_fits excess _))⟩

end Dossier
