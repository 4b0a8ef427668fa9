import Dossier.Proofs.Collection.Selecting
import Dossier.Proofs.Sql.Extracted
import Dossier.Proofs.Store.Separate
import Dossier.Proofs.Update.Distinct

/-!
# Equality finds what it names

`Host.finds_of_reached`: in every store that calls lead to, a filter that asks for the value that a document has at a path
selects the document, as far as the numbers at the path are read exactly. A container is compared by its text, and
`Host.unfound` is a run after which a double stands in a container in a text of the engine's own, so that the document is not
found by the very value that it is given with.
-/

namespace Dossier

open Dossier.Action Outcome Text

/-! ## The filter -/

/-- A filter that asks for a value at a field, with the operator or without it. -/
inductive Json.Equates (field : String) (v : Json) : Json → Prop
  | operator : Equates field v (.object [(field, .object [("$eq", v)])])
  | literal (plain : ∀ entries, v = .object entries → entries.any (fun e => isOperatorKey e.1) = false) :
      Equates field v (.object [(field, v)])

/-- Either way the filter is one equality. -/
theorem Filter.parse_equates {field : String} {v filter : Json} (asks : Json.Equates field v filter) {ref : FieldRef}
    (accepted : FieldRef.parse field = .ok ref) : Filter.parse filter = .ok ⟨[⟨field, ref, [.compare .eq v]⟩]⟩ := by
  have conditions : ∀ w, Condition.parseAll field w = .ok [.compare .eq v] →
      Filter.parse (.object [(field, w)]) = .ok ⟨[⟨field, ref, [.compare .eq v]⟩]⟩ := by
    intro w read
    simp [Filter.parse, Clause.parse, accepted, read]
  cases asks with
  | operator =>
    have operator : isOperatorKey "$eq" = true := by decide
    refine conditions _ ?_
    cases v <;> simp [Condition.parseAll, operator, Condition.parse, comparison?, Condition.takesOperand]
  | literal plain =>
    refine conditions _ ?_
    cases v with
    | object entries => simp [Condition.parseAll, plain entries rfl]
    | null | bool | number | string | array => rfl

/-! ## The row -/

/-- What a document has at a path is what a row extracts there, in the form in which it is handed over, as far as the value
is read exactly. -/
theorem Row.extract_of_json? {r : Row} {d : Document} {field : String} {path : FieldPath} {v : Json}
    (upheld : r.data.Upholds Tree.Distinct) (document : r.document = .ok d)
    (accepted : FieldRef.parse field = .ok (.body path)) (held : d.get? field = some v)
    (exact_ : ∀ sub, r.data.tree.lookup? path.segments = some sub → sub.json? = some v → sub.ReadsExactly) :
    r.data.extract path = Value.ofJson v := by
  obtain ⟨-, decoded⟩ := document_eq_ok document
  rw [Document.get?, ← FieldRef.segments_of_parse accepted] at held
  obtain ⟨sub, found, value⟩ := Tree.lookup?_of_json? upheld.tree (Body.json?_of_decode decoded) held
  have distinct : sub.isDistinct = true := Tree.isDistinct_lookup? found upheld.tree
  have written := Tree.Consists.lookup? found upheld.written
  rw [Body.extract, found]
  exact Tree.value_eq_ofJson distinct written (exact_ sub found value) value

theorem Row.extract_of_get? {r : Row} {d : Document} {field : String} {path : FieldPath} {v : Json}
    (upheld : r.data.Upholds Tree.Distinct) (document : r.document = .ok d)
    (accepted : FieldRef.parse field = .ok (.body path)) (held : d.get? field = some v)
    (exact_ : ∀ sub, r.data.tree.lookup? path.segments = some sub → sub.ReadsExactly) :
    r.data.extract path = Value.ofJson v :=
  extract_of_json? upheld document accepted held fun sub found _ => exact_ sub found

/-- A filter reads what the body has at a path, if the column of the path mirrors it where there is one. -/
theorem Row.read_operand {row : Row} {resolver : Resolver} {path : FieldPath}
    (mirrored : path ∈ resolver.promoted → row.promotedValue path.column = row.data.extract path) :
    row.read (resolver.operand (.body path)) = row.data.extract path := by
  unfold Resolver.operand
  by_cases promoted : resolver.isPromoted path = true
  · simp only [promoted, if_true, Row.read]
    exact mirrored (by simpa [Resolver.isPromoted] using promoted)
  · simp only [promoted, Bool.false_eq_true, if_false, Row.read]

/-- A row is selected by the value that its document has at a path, if the column of the path mirrors it where there is
one. -/
theorem Row.holds_equality {row : Row} {resolver : Resolver} {field : String} {path : FieldPath} {v : Json}
    (mirrored : path ∈ resolver.promoted → row.promotedValue path.column = row.data.extract path)
    (same : row.data.extract path = Value.ofJson v) :
    (Predicate.holds row.read (Filter.predicate ⟨[⟨field, .body path, [.compare .eq v]⟩]⟩ resolver)).isTrue = true := by
  have holds := Condition.holds_equality ((read_operand mirrored).trans same)
  simp [Filter.predicate, Predicate.holds, Truth.all, holds, Truth.and, Truth.isTrue]

/-! ## Reachable stores -/

/-- In a store that starts without a database, when no value in the calls repeats a key: a filter that asks for the value that
a document has at a body path selects its row, whether the path is promoted, if the collection is the only one with promoted
paths, or not, as far as the numbers at the path are read exactly; and finding gives the document if all selected rows
decode. -/
theorem Host.finds_of_reached {disk : Disk} {settings : Settings} {ids : IdSource} {clock : Clock}
    {requests : List StoreRequest} (fresh : ∀ e ∈ disk.entries, ∀ f, e.2 ≠ .database f)
    (calls : ∀ r ∈ requests, r.Within CollectionRequest.Distinct) {h : Host}
    (reached : ((start disk settings ids clock).callAll requests).2 = h) {s : Store} (opened : h.store = some s)
    {name : String} {x : Session} (session : s.session? name = some x) {c : Collection}
    (resolves : c.resolver.promoted ⊆ ((s.workspace x).current.resolver c.name.text).promoted) {t : Table}
    (found : (s.workspace x).current.table? c.name.text = some t) {r : Row} (mem : r ∈ t.rows) {d : Document}
    (document : r.document = .ok d) {field : String} {path : FieldPath} (accepted : FieldRef.parse field = .ok (.body path))
    (own : path ∈ c.resolver.promoted → ∀ p ∈ (s.workspace x).current.promotions, p.collection = c.name.text) {v : Json}
    (held : d.get? field = some v) (exact_ : ∀ sub, r.data.tree.lookup? path.segments = some sub → sub.ReadsExactly)
    {filter : Json} (asks : Json.Equates field v filter) :
    ∃ f, Filter.parse filter = .ok f ∧ r ∈ t.select (c.predicate f)
      ∧ ((∀ other ∈ t.select (c.predicate f), ∃ d', other.document = .ok d') →
        ∃ docs, ((c.find filter .all).result (s.workspace x)).1 = .ok docs ∧ d ∈ docs) := by
  have kept : Kept (fun db => db.Bodies (Body.Upholds Tree.Distinct) ∧ db.Separate) CollectionRequest.Distinct :=
    (kept_bodies.mono fun _ distinct => distinct.writes).and
      (Database.lasting_separate.kept.mono fun _ distinct => distinct.thaws)
  have good : h.Good fun db => db.Bodies (Body.Upholds Tree.Distinct) ∧ db.Separate :=
    good_of_reached kept fresh calls reached
  have here := good.workspace opened session
  obtain ⟨bodies, separate⟩ := here.current
  have parsed := Filter.parse_equates asks accepted
  have selected : r ∈ t.select (c.predicate ⟨[⟨field, .body path, [.compare .eq v]⟩]⟩) := by
    refine List.mem_filter.2 ⟨mem, Row.holds_equality (fun promoted => ?_)
      (Row.extract_of_get? (bodies.row found r mem) document accepted held exact_)⟩
    exact separate.mirrored (own promoted) found r mem path (resolves promoted)
  refine ⟨_, parsed, selected, fun decode => ?_⟩
  obtain ⟨docs, decodes⟩ := exists_mapM decode
  obtain ⟨d', given, document'⟩ := exists_of_mem_mapM decodes selected
  cases document.symm.trans document'
  have fits : (c.predicate (.on field (.body path) [.compare .eq v])).Fits := Filter.fits_compare ..
  exact ⟨docs, (Collection.find_all here.orderly found parsed (.of_fits fits)).trans decodes, given⟩

/-- Calls that insert a document with a number in an object and add to the number. -/
def StoreRequest.summing (delta : Float) : List StoreRequest :=
  [.reopen none,
    .session "main" (.within "sums" (.insertOne (.object [("_id", .string "x"), ("o", .object [("a", .number (.real 1.0))])]))),
    .session "main" (.within "sums" (.update .one (.object [("_id", .string "x")])
      (.object [("$inc", .object [("o.a", .number (.real delta))])]) false))]

/-- Such calls, after which the object is promoted. -/
def StoreRequest.summingPromoted (delta : Float) : List StoreRequest :=
  summing delta ++ [.session "main" (.within "sums" (.promote "o" false))]

/-- The hosts after these calls. -/
def Host.summed (delta : Float) : Host := (blank.callAll (StoreRequest.summing delta)).2
def Host.summedPromoted (delta : Float) : Host := (blank.callAll (StoreRequest.summingPromoted delta)).2

/-- The path of the object. -/
def FieldPath.sum : FieldPath := ⟨["o"], by decide, by decide⟩

/-- The collection of the document, without and with the promoted path. -/
def Collection.sums : Collection := ⟨⟨"sums", by decide⟩, ⟨[]⟩⟩
def Collection.columnedSums : Collection := ⟨sums.name, ⟨[.sum]⟩⟩

/-- The body of the document when a half has been added. -/
def Fields.summed : Fields := [("o", .object [("a", .number (.real 1.5))])]

/-- The filter for a value of the object. -/
def Json.sumIs (v : Json) : Json := .object [("o", .object [("$eq", v)])]

theorem Host.finds_of_reached_summed : ∃ s x d v docs, (summedPromoted 0.5).store = some s ∧ s.session? "main" = some x
    ∧ d.get? "o" = some v ∧ ((Collection.columnedSums.find (.sumIs v) .all).result (s.workspace x)).1 = .ok docs ∧ d ∈ docs := by
  have evaluated : ((summedPromoted 0.5).store.bind fun s => (s.session? "main").bind fun x =>
      ((s.workspace x).current.table? "sums").map fun t => ((s.workspace x).current.promotions.map fun p => (p.collection, p.path),
        t.rows.map fun r => r.data.text, (t.rows.mapM Row.document).toOption.map fun docs =>
          docs.map fun d => (d.get? "o").isSome))
      = some ([("sums", .sum)], [(Json.object Fields.summed).text], some [true]) := by decide +kernel
  obtain ⟨s, x, opened, session, found⟩ := Host.exists_session_of_bind evaluated
  obtain ⟨t, table, eq⟩ := Option.map_eq_some_iff.1 found
  obtain ⟨entries, rest⟩ := Prod.mk.inj eq
  obtain ⟨texts, read⟩ := Prod.mk.inj rest
  obtain ⟨docs, decodes, gets⟩ := Option.map_eq_some_iff.1 read
  have decodes := eq_ok_of_toOption decodes
  obtain ⟨d, rfl, get⟩ := List.map_eq_singleton_iff.1 gets
  obtain ⟨v, held⟩ := Option.isSome_iff_exists.1 get
  obtain ⟨r, single, text⟩ := List.map_eq_singleton_iff.1 texts
  have mem : r ∈ t.rows := single ▸ List.mem_singleton_self r
  obtain ⟨d', given, document⟩ := exists_of_mem_mapM decodes mem
  obtain rfl := List.mem_singleton.1 given
  have tree : r.data.tree = (Json.object Fields.summed).tree := Body.tree_of_text (by decide +kernel) text
  have exact_ : ∀ sub, r.data.tree.lookup? FieldPath.sum.segments = some sub → sub.ReadsExactly := by
    intro sub found
    rw [tree, Json.lookup?_tree FieldPath.sum.nonempty] at found
    cases found
    have half : (Number.ofChars? (Number.chars (.real 1.5))).map Number.chars = some (Number.chars (.real 1.5)) := by
      decide +kernel
    obtain ⟨n, read, same⟩ := Option.map_eq_some_iff.1 half
    exact ⟨trivial, ⟨n, read, same.symm⟩, trivial⟩
  obtain ⟨registered, single⟩ := Database.resolver_of_single entries
  have own : ∀ p ∈ (s.workspace x).current.promotions, p.collection = "sums" := fun p known => (single p known).1
  have resolves : Collection.columnedSums.resolver.promoted
      ⊆ ((s.workspace x).current.resolver Collection.columnedSums.name.text).promoted := fun _ known => registered ▸ known
  have calls : ∀ r ∈ StoreRequest.summingPromoted 0.5, r.Within CollectionRequest.Distinct :=
    List.forall_mem_cons.2 ⟨trivial, List.forall_mem_cons.2 ⟨rfl, List.forall_mem_cons.2 ⟨⟨rfl, rfl⟩,
      List.forall_mem_singleton.2 trivial⟩⟩⟩
  have accepted : FieldRef.parse "o" = .ok (.body .sum) := rfl
  obtain ⟨f, parsed, selected, finds⟩ :=
    finds_of_reached (Disk.start_fresh []) calls (h := summedPromoted 0.5) (by rw [summedPromoted, blank]) opened session
      resolves table mem document accepted (fun _ => own) held exact_ .operator
  obtain ⟨docs, given, known⟩ := finds fun other there =>
    (exists_of_mem_mapM decodes (List.mem_filter.1 there).1).imp fun _ h => h.2
  exact ⟨s, x, d', v, docs, opened, session, held, given, known⟩

/-- A double that the engine has written in a container is compared by its text, and the store hands the same double over in
another: the only document is not found by the value that it has. -/
theorem Host.unfound : ∃ s x d v, (summed 999999999999999.0).store = some s ∧ s.session? "main" = some x
    ∧ ((Collection.sums.find .null .all).result (s.workspace x)).1 = .ok [d] ∧ d.get? "o" = some v
    ∧ ((Collection.sums.find (.sumIs v) .all).result (s.workspace x)).1 = .ok [] := by
  have evaluated : ((summed 999999999999999.0).store.bind fun s => (s.session? "main").bind fun x =>
      ((Collection.sums.find .null .all).result (s.workspace x)).1.toOption.map fun docs => docs.map fun d =>
        (d.get? "o").map fun v => (((Collection.sums.find (.sumIs v) .all).result (s.workspace x)).1.toOption.map List.length))
      = some [some (some 0)] := by decide +kernel
  obtain ⟨s, x, opened, session, found⟩ := Host.exists_session_of_bind evaluated
  obtain ⟨docs, all, eq⟩ := Option.map_eq_some_iff.1 found
  obtain ⟨d, rfl, get⟩ := List.map_eq_singleton_iff.1 eq
  obtain ⟨v, held, counted⟩ := Option.map_eq_some_iff.1 get
  obtain ⟨none_, given, length⟩ := Option.map_eq_some_iff.1 counted
  obtain rfl := List.length_eq_zero_iff.1 length
  exact ⟨s, x, d, v, opened, session, eq_ok_of_toOption all, held, eq_ok_of_toOption given⟩

end Dossier
