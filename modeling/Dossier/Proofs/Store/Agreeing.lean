import Dossier.Proofs.Raw.Comparing
import Dossier.Proofs.Store.Equality

/-!
# A raw predicate and a filter

A raw predicate and a filter that ask for one value at one field go to the engine as two texts, but both read what the body
holds at the path. So they give the same documents in the same order (`Host.findRaw_of_reached`), whether the field is promoted
or not.
-/

namespace Dossier

open Dossier.Action Outcome Text Sql

/-! ## The rows -/

/-- What a row extracts at a path is compared without affinity. -/
theorem Raw.holds_compared (r : Row) (path : FieldPath) (v : Value) :
    (compared (.column ⟨.current, .data⟩) path).holds (fun place => r.column place.column) [v]
      = some (Value.test .eq .none .binary (r.data.extract path) v) := by
  have extracted : (Expr.binary .extract (.column ⟨.current, .data⟩) (.value (.text path.jsonPath))).eval
      (fun place => r.column place.column) [v] = some (r.data.extract path) := r.data.extract?_jsonPath path
  rw [compared, Expr.holds, Expr.eval, extracted]
  exact congrArg some (Value.truth_ofTruth _)

/-- A promoted column converts no side of a comparison, and an extraction has no affinity. -/
theorem Resolver.test_body (resolver : Resolver) (path : FieldPath) (a b : Value) :
    Value.test .eq (resolver.operand (.body path)).affinity .binary a b = Value.test .eq .none .binary a b := by
  unfold operand
  by_cases promoted : resolver.isPromoted path = true
  · simp only [promoted, if_true]
    rfl
  · simp only [promoted, Bool.false_eq_true, if_false]
    rfl

/-- A filter that asks for a value at a path compares what the row extracts there, and without affinity as well. -/
theorem Row.isTrue_asked {r : Row} {resolver : Resolver} {field : String} {path : FieldPath} {v : Json}
    (mirrored : path ∈ resolver.promoted → r.promotedValue path.column = r.data.extract path) (proper : v ≠ .null) :
    (((Filter.on field (.body path) [.compare .eq v]).predicate resolver).holds r.read).isTrue
      = (Value.test .eq .none .binary (r.data.extract path) (.ofJson v)).isTrue := by
  rw [Predicate.isTrue_holds, Filter.predicate_on, List.map_singleton, Condition.term_eq proper, List.all_cons, List.all_nil,
    Bool.and_true, Term.holds, resolver.test_body, read_operand mirrored]

/-- A raw predicate that compares a field with a value selects the rows that the filter for the value selects, and lists them
alike. -/
theorem Table.findRaw_of_compares {t : Table} {resolver : Resolver} {field : String} {path : FieldPath} {p : RawPredicate}
    {v : Json} (h : Raw.IsFieldName field path) (plain : ¬ Raw.Extracts field.toList) (spelled : Raw.Compares field p.sql)
    (one : p.params = [.ofJson v]) (proper : v ≠ .null)
    (mirrored : ∀ r ∈ t.rows, path ∈ resolver.promoted → r.promotedValue path.column = r.data.extract path) (l : Listing) :
    t.findRaw resolver p l
      = l.apply resolver (t.select ((Filter.on field (.body path) [.compare .eq v]).predicate resolver)) := by
  have body : t.scope none "data" = some ⟨.current, .data⟩ := rfl
  have selected : t.selectRaw (Raw.compared (.column ⟨.current, .data⟩) path) p.params
      = .ok (t.select ((Filter.on field (.body path) [.compare .eq v]).predicate resolver)) := by
    refine filterM_ok fun r mem => ?_
    rw [one, Raw.holds_compared, Row.isTrue_asked (mirrored r mem) proper]
  rw [findRaw, Raw.selection?_of_compares h plain spelled one body]
  simp only [selected, ok_bind, if_true]

/-! ## The calls -/

namespace Collection

variable {c : Collection} {w : Workspace}

/-- A raw predicate that compares a field with a value is answered as the filter that asks for the value. -/
theorem result_findRaw_of_compares {field : String} {path : FieldPath} {p : RawPredicate} {v : Json} {filter : Json}
    (orderly : w.Orderly) (h : Raw.IsFieldName field path) (plain : ¬ Raw.Extracts field.toList)
    (spelled : Raw.Compares field p.sql) (one : p.params = [.ofJson v]) (proper : v ≠ .null)
    (asks : Json.Equates field v filter)
    (mirrored : ∀ t, w.current.table? c.name.text = some t → ∀ r ∈ t.rows, path ∈ c.resolver.promoted →
      r.promotedValue path.column = r.data.extract path) (l : Listing) :
    ((c.findRaw p l).result w).1 = ((c.find filter l).result w).1 := by
  have parsed : Filter.parse filter = .ok (.on field (.body path) [.compare .eq v]) := Filter.parse_equates asks h.fieldRef_eq
  have answers : (w.current.run c.name c.resolver (.findRaw p l)).map (·.1)
      = (w.current.run c.name c.resolver (.find (c.predicate (.on field (.body path) [.compare .eq v])) l)).map (·.1) := by
    have raw : (Statement.findRaw p l).Fits := Statement.fits_findRaw (by rw [one]; exact (show 1 ≤ limits.values by decide))
    have fits : (c.predicate (.on field (.body path) [.compare .eq v])).Fits := Filter.fits_compare
    rw [Database.run_of_fits raw, Database.run_of_fits (fits.find l), Database.answer, Database.answer]
    cases found : w.current.table? c.name.text with
    | none => rw [Database.tableOf, found]; rfl
    | some t =>
      rw [Database.tableOf_eq_ok.2 found, ok_bind, ok_bind,
        Table.findRaw_of_compares h plain spelled one proper (mirrored t found)]
      rfl
  obtain ⟨u, ran, -⟩ := exists_read orderly fun db => (db.run c.name c.resolver (.findRaw p l)).map (·.1)
  obtain ⟨u', ran', -⟩ := exists_read orderly fun db =>
    (db.run c.name c.resolver (.find (c.predicate (.on field (.body path) [.compare .eq v])) l)).map (·.1)
  rw [find, result_bind, result_readFilter parsed]
  simp only
  rw [findRaw, result_bind, result_bind, execute, Action.execute, ran, execute, Action.execute, ran', answers]
  cases (w.current.run c.name c.resolver (.find (c.predicate (.on field (.body path) [.compare .eq v])) l)).map (·.1) with
  | error e => rfl
  | ok rows => simp only [Except.mapError, result_ofStore]

end Collection

/-! ## Reachable stores -/

/-- In a store that starts without a database, whatever calls are made: a raw predicate that compares a field with a value is
answered as the filter that asks for the value, document for document, whether the field is promoted, if the collection is the
only one with promoted paths, or not, as long as the name of the field has no `json_extract` in it. -/
theorem Host.findRaw_of_reached {disk : Disk} {settings : Settings} {ids : IdSource} {clock : Clock}
    {requests : List StoreRequest} (fresh : ∀ e ∈ disk.entries, ∀ f, e.2 ≠ .database f)
    (calls : ∀ r ∈ requests, r.Within (· ≠ .freeze)) {h : Host}
    (reached : ((start disk settings ids clock).callAll requests).2 = h) {s : Store} (opened : h.store = some s)
    {name : String} {x : Session} (session : s.session? name = some x) {c : Collection}
    (resolves : c.resolver.promoted ⊆ ((s.workspace x).current.resolver c.name.text).promoted)
    {field : String} {path : FieldPath} (named : Raw.IsFieldName field path) (plain : ¬ Raw.Extracts field.toList)
    (own : path ∈ c.resolver.promoted → ∀ p ∈ (s.workspace x).current.promotions, p.collection = c.name.text)
    {sql : String} (spelled : Raw.Compares field sql) {v : Json} (proper : v ≠ .null) (listing : Listing) :
    ((c.findRaw ⟨sql, [.ofJson v]⟩ listing).result (s.workspace x)).1
      = ((c.find (.object [(field, .object [("$eq", v)])]) listing).result (s.workspace x)).1 := by
  have good : h.Good Database.Separate := good_of_reached Database.lasting_separate.kept fresh calls reached
  have here := good.workspace opened session
  refine Collection.result_findRaw_of_compares here.orderly named plain spelled rfl proper .operator (fun t found r mem promoted => ?_)
    listing
  exact here.current.mirrored (own promoted) found r mem path (resolves promoted)

/-- A raw predicate for the promoted path. -/
def RawPredicate.nested : RawPredicate := ⟨"wHeRe b.c = ?", [.text "v"]⟩

/-- The only document is found by it. -/
theorem Host.findRaw_of_reached_nested : ∃ s x d, mirrored.store = some s ∧ s.session? "main" = some x
    ∧ d.id = "x" ∧ ((Collection.nested.findRaw .nested .all).result (s.workspace x)).1 = .ok [d] := by
  have evaluated : (mirrored.store.bind fun s => (s.session? "main").bind fun x =>
      ((Collection.nested.find (.object [("b.c", .object [("$eq", .string "v")])]) .all).result (s.workspace x)).1.toOption.map
        fun docs => ((s.workspace x).current.promotions.map fun p => (p.collection, p.path), docs.map Document.id))
      = some ([("a", Promotion.nested.path)], ["x"]) := by decide +kernel
  obtain ⟨s, x, opened, session, found⟩ := Host.exists_session_of_bind evaluated
  obtain ⟨docs, given, eq⟩ := Option.map_eq_some_iff.1 found
  obtain ⟨entries, ids⟩ := Prod.mk.inj eq
  obtain ⟨d, rfl, id⟩ := List.map_eq_singleton_iff.1 ids
  obtain ⟨registered, single⟩ := Database.resolver_of_single entries
  have resolves : Collection.nested.resolver.promoted
      ⊆ ((s.workspace x).current.resolver Collection.nested.name.text).promoted := fun _ known => registered ▸ known
  have named : Raw.IsFieldName "b.c" Promotion.nested.path := ⟨rfl, rfl, by decide, by decide, by decide, by decide⟩
  have plain : ¬ Raw.Extracts "b.c".toList := fun extracts => absurd ((Raw.occursIn_iff _).2 extracts) (by decide)
  have calls : ∀ r ∈ [.reopen none, .promoteNested, .insertNested], StoreRequest.Within (· ≠ .freeze) r := by
    simp [StoreRequest.promoteNested, StoreRequest.insertNested, StoreRequest.Within, Request.Within]
  have agree :=
    findRaw_of_reached (Disk.start_fresh []) calls (h := mirrored) (by rw [mirrored, blank]) opened session resolves named plain
      (fun _ p known => (single p known).1) (.where "wHeRe" " " (by decide) (by decide) (by decide)) (v := .string "v")
      (fun null => by cases null) .all
  exact ⟨s, x, d, opened, session, id, agree.trans (eq_ok_of_toOption given)⟩

/-- The host when a document has been inserted with `json_extract` in the name of a field. -/
def Host.misnamed : Host := (blank.callAll [.reopen none,
  .session "main" (.within "misnamed" (.insertOne (.object [("_id", .string "x"), ("json_extract_n", .string "v")])))]).2

/-- Its collection, and the raw predicate and the filter for the value of the field. -/
def Collection.misnamed : Collection := ⟨⟨"misnamed", by decide⟩, ⟨[]⟩⟩
def RawPredicate.misnamed : RawPredicate := ⟨"json_extract_n = ?", [.ofJson (.string "v")]⟩
def Json.misnamed : Json := .object [("json_extract_n", .object [("$eq", .string "v")])]

/-- The filter finds the document by the field, and the raw predicate is refused, for in it the name stays as it is and names no
column. -/
theorem Host.findRaw_of_misnamed : ∃ s x d path e, misnamed.store = some s ∧ s.session? "main" = some x
    ∧ Raw.IsFieldName "json_extract_n" path ∧ Raw.Compares "json_extract_n" RawPredicate.misnamed.sql
    ∧ ((Collection.misnamed.find .misnamed .all).result (s.workspace x)).1 = .ok [d]
    ∧ ((Collection.misnamed.findRaw .misnamed .all).result (s.workspace x)).1 = .error e := by
  have evaluated : (misnamed.store.bind fun s => (s.session? "main").map fun x =>
      (((Collection.misnamed.find .misnamed .all).result (s.workspace x)).1.toOption.map List.length,
        ((Collection.misnamed.findRaw .misnamed .all).result (s.workspace x)).1.toOption.map List.length))
      = some (some 1, none) := by decide +kernel
  obtain ⟨s, x, opened, session, eq⟩ := Host.exists_session_of_map evaluated
  obtain ⟨one, refused⟩ := Prod.mk.inj eq
  obtain ⟨docs, given, length⟩ := Option.map_eq_some_iff.1 one
  obtain ⟨d, rfl⟩ := List.length_eq_one_iff.1 length
  have failed := Option.map_eq_none_iff.1 refused
  have named : Raw.IsFieldName "json_extract_n" ⟨["json_extract_n"], by decide, by decide⟩ :=
    ⟨rfl, rfl, by decide, by decide, by decide, by decide⟩
  cases answer : ((Collection.misnamed.findRaw .misnamed .all).result (s.workspace x)).1 with
  | ok docs =>
    rw [answer] at failed
    cases failed
  | error e => exact ⟨s, x, d, _, e, opened, session, named, .bare, eq_ok_of_toOption given, answer⟩

end Dossier
