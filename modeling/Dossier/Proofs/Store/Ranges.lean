import Dossier.Proofs.Filter.Range
import Dossier.Proofs.Store.Equality

/-!
# Ranges find the integers within their bounds

`Host.ranges_of_reached`: in every store that calls lead to, a filter of range operators with integers selects the documents
whose integer is within the bounds when it is rounded to the nearest double, so the documents whose integer is within the
bounds as far as the integers are doubles. `Host.outside_own_range` is a document with an integer of 54 bits that is not found
in the range of this integer alone.
-/

namespace Dossier

open Outcome Decimal
open Sql (limits)

/-! ## Integers of documents -/

/-- The integer of 64 signed bits that a value is. -/
def Json.signed? : Json → Option Int
  | .number n => n.signed?
  | _ => none

/-- The integer of 64 signed bits that a document has at a path. -/
def Document.integer? (d : Document) (field : String) : Option Int := (d.get? field).bind Json.signed?

variable {d : Document} {field : String} {path : FieldPath} {n : Int}

theorem Document.integer?_eq_some (held : d.integer? field = some n) :
    ∃ w : Whole, d.get? field = some (.number (.whole w)) ∧ w.isSigned = true ∧ w.val = n := by
  obtain ⟨v, get, signed⟩ := Option.bind_eq_some_iff.1 held
  cases v with
  | number m =>
    cases m with
    | whole w =>
      rw [Json.signed?, Number.signed?, Option.ite_none_right_eq_some] at signed
      exact ⟨w, get, signed.1, Option.some.inj signed.2⟩
    | real => cases signed
  | null | bool | string | array | object => cases signed

/-- A whole number is read exactly. -/
theorem Tree.readsExactly_of_whole {t : Tree} {w : Whole} (read : t.json? = some (.number (.whole w))) : t.ReadsExactly := by
  cases t with
  | number text =>
    obtain ⟨m, known, eq⟩ := Option.map_eq_some_iff.1 read
    cases eq
    intro x _ real
    cases known.symm.trans real
  | null | bool => cases read
  | string | array | object =>
    obtain ⟨_, -, eq⟩ := Option.map_eq_some_iff.1 read
    cases eq

/-- A filter reads the integer that a document has at a path, if the column of the path mirrors it where there is one. -/
theorem Row.read_integer {row : Row} {resolver : Resolver} (upheld : row.data.Upholds Tree.Distinct)
    (document : row.document = .ok d) (accepted : FieldRef.parse field = .ok (.body path))
    (mirrored : path ∈ resolver.promoted → row.promotedValue path.column = row.data.extract path)
    (held : d.integer? field = some n) : row.read (resolver.operand (.body path)) = .integer n ∧ n.natAbs < 2 ^ 64 := by
  obtain ⟨w, get, signed, rfl⟩ := Document.integer?_eq_some held
  have value : Value.ofJson (.number (.whole w)) = .integer w.val := Value.ofNumber_of_signed signed
  refine ⟨?_, by have := w.property; omega⟩
  rw [read_operand mirrored, ← value]
  exact extract_of_json? upheld document accepted get fun sub _ read => Tree.readsExactly_of_whole read

/-! ## Collections -/

namespace Collection

variable {c : Collection} {w : Workspace} {t : Table} {all : List Document} {bounds : List Bound}

/-- Where every row reads as an integer at the path, a filter of bounds selects the documents whose integers the bounds admit
when they are rounded. -/
theorem selects_range (orderly : w.Orderly) (shows : w.Shows c.name t all)
    (accepted : FieldRef.parse field = .ok (.body path)) (some_ : bounds ≠ []) (few : bounds.length + 3 ≤ limits.depth)
    (reads : ∀ r ∈ t.rows, ∀ d, r.document = .ok d → ∃ n, d.integer? field = some n
      ∧ r.read (c.resolver.operand (.body path)) = .integer n ∧ n.natAbs < 2 ^ 64) :
    c.Selects w (.asking field (bounds.map Bound.entry))
      (all.filter fun d => (d.integer? field).any fun n => bounds.all (·.admits (nearestWhole n))) := by
  have comparisons : ∀ condition ∈ bounds.map Bound.condition, ∃ op v, condition = .compare op v :=
    List.forall_mem_map.2 fun b _ => ⟨_, _, rfl⟩
  refine selects_of_decodes orderly shows.found (Filter.parse_bounds accepted some_)
    (.of_fits (Filter.fits_of_comparisons comparisons (by rwa [List.length_map]))) (mapM_filter ?_ shows.decodes)
  intro r mem d document
  obtain ⟨n, held, value, fits⟩ := reads r mem d document
  rw [held, Option.any_some]
  exact Filter.isTrue_bounds value fits

/-- Rounding changes no integer that is a double. -/
theorem filter_nearestWhole (doubles : ∀ d ∈ all, ∀ n, d.integer? field = some n → IsDouble n) :
    (all.filter fun d => (d.integer? field).any fun n => bounds.all (·.admits (nearestWhole n)))
      = all.filter fun d => (d.integer? field).any fun n => bounds.all (·.admits n) := by
  refine List.filter_congr fun d mem => ?_
  cases held : d.integer? field with
  | none => rfl
  | some n => rw [Option.any_some, Option.any_some, (doubles d mem n held).nearestWhole]

end Collection

/-! ## Reachable stores -/

/-- In a store that starts without a database, when no value in the calls repeats a key, for a body path at which every
document of a collection has an integer of 64 signed bits, and for every list of bounds that is not too deep as a filter: the calls that read select the
documents whose integers are within all bounds when they are rounded to the nearest double, in the order of insertion; and
where the integers are doubles, such as those up to `2 ^ 53`, the documents whose integers are within all bounds. The path may
be promoted, as long as no other promoted path has its column. -/
theorem Host.ranges_of_reached {disk : Disk} {settings : Settings} {ids : IdSource} {clock : Clock}
    {requests : List StoreRequest} (fresh : ∀ e ∈ disk.entries, ∀ f, e.2 ≠ .database f)
    (calls : ∀ r ∈ requests, r.Within CollectionRequest.Distinct) {h : Host}
    (reached : ((start disk settings ids clock).callAll requests).2 = h) {s : Store} (opened : h.store = some s)
    {name : String} {x : Session} (session : s.session? name = some x) {c : Collection}
    (resolves : c.resolver.promoted ⊆ ((s.workspace x).current.resolver c.name.text).promoted) {t : Table}
    {all : List Document} (shows : (s.workspace x).Shows c.name t all) {field : String} {path : FieldPath}
    (accepted : FieldRef.parse field = .ok (.body path))
    (alone : path ∈ c.resolver.promoted → ∀ q ∈ (s.workspace x).current.promotions, ¬ Site.Rival ⟨c.name.text, path⟩ q.site)
    (integers : ∀ d ∈ all, (d.integer? field).isSome = true) {bounds : List Bound} (some_ : bounds ≠ [])
    (few : bounds.length + 3 ≤ limits.depth) :
    (t.rows.Pairwise fun r r' => r.rowid < r'.rowid)
      ∧ c.Selects (s.workspace x) (.asking field (bounds.map Bound.entry))
        (all.filter fun d => (d.integer? field).any fun n => bounds.all (·.admits (nearestWhole n)))
      ∧ ((∀ d ∈ all, ∀ n, d.integer? field = some n → IsDouble n) →
        c.Selects (s.workspace x) (.asking field (bounds.map Bound.entry))
          (all.filter fun d => (d.integer? field).any fun n => bounds.all (·.admits n))) := by
  have kept : Kept (fun db => (db.Bodies (Body.Upholds Tree.Distinct) ∧ db.Mirroring) ∧ db.Numbered)
      CollectionRequest.Distinct :=
    ((kept_bodies.mono fun _ distinct => distinct.writes).and (kept_mirroring.mono fun _ distinct => distinct.thaws)).and
      (Database.kept_numbered.mono fun _ _ => trivial)
  have good : h.Good fun db => (db.Bodies (Body.Upholds Tree.Distinct) ∧ db.Mirroring) ∧ db.Numbered :=
    good_of_reached kept fresh calls reached
  have here := good.workspace opened session
  obtain ⟨⟨bodies, mirroring⟩, numbered⟩ := here.current
  have mirrored : path ∈ c.resolver.promoted → ∀ r ∈ t.rows, r.promotedValue path.column = r.data.extract path :=
    fun promoted => mirroring.mirrored shows.found (resolves promoted) (alone promoted)
  have reads : ∀ r ∈ t.rows, ∀ d, r.document = .ok d → ∃ n, d.integer? field = some n
      ∧ r.read (c.resolver.operand (.body path)) = .integer n ∧ n.natAbs < 2 ^ 64 := by
    intro r mem d document
    obtain ⟨d', given, document'⟩ := exists_of_mem_mapM shows.decodes mem
    cases document.symm.trans document'
    obtain ⟨n, held⟩ := Option.isSome_iff_exists.1 (integers d given)
    exact ⟨n, held, Row.read_integer (bodies.row shows.found r mem) document accepted
      (fun promoted => mirrored promoted r mem) held⟩
  have selects := Collection.selects_range here.orderly shows accepted some_ few reads
  refine ⟨(numbered.tables t (Database.mem_of_table? shows.found).1).rowids, selects, fun doubles => ?_⟩
  rwa [Collection.filter_nearestWhole doubles] at selects

/-- A document with a size. -/
def Json.sized (id : String) (size : Whole) : Json := .object [("_id", .string id), ("size", .number (.whole size))]

/-- Calls that insert documents, and promote the path of their sizes. -/
def StoreRequest.sizing (documents : List Json) : List StoreRequest :=
  [.reopen none, .session "main" (.within "sizes" (.insertMany documents)),
    .session "main" (.within "sizes" (.promote "size" false))]

/-- The host after these calls. -/
def Host.sized (documents : List Json) : Host := (blank.callAll (StoreRequest.sizing documents)).2

/-- The path of the sizes, and their collection. -/
def FieldPath.size : FieldPath := ⟨["size"], by decide, by decide⟩
def Collection.sizes : Collection := ⟨⟨"sizes", by decide⟩, ⟨[.size]⟩⟩

/-- The power `2 ^ 60`, the least natural number that is no double, and the number after it. -/
def Whole.power : Whole := ⟨1152921504606846976, by decide⟩
def Whole.odd : Whole := ⟨9007199254740993, by decide⟩
def Whole.even : Whole := ⟨9007199254740994, by decide⟩

/-- Documents with sizes that are doubles, and one whose size is none. -/
def Json.doubles : List Json :=
  [.sized "x" ⟨40, by decide⟩, .sized "y" .power, .sized "z" ⟨-7, by decide⟩]
def Json.between : List Json := [.sized "x" .odd]

/-- From forty up to a power of two. -/
def Bound.sizes : List Bound := [⟨.atLeast, ⟨40, by decide⟩, rfl⟩, ⟨.atMost, .power, rfl⟩]

theorem Host.ranges_of_reached_sizes : ∃ s x docs, (sized Json.doubles).store = some s ∧ s.session? "main" = some x
    ∧ Collection.sizes.Selects (s.workspace x) (.asking "size" (Bound.sizes.map Bound.entry)) docs ∧ docs.length = 2 := by
  have evaluated : ((sized Json.doubles).store.bind fun s => (s.session? "main").bind fun x =>
      ((s.workspace x).current.table? "sizes").map fun t =>
        ((s.workspace x).current.promotions.map fun p => (p.collection, p.path), (t.rows.mapM Row.document).toOption.map fun docs =>
          docs.map fun d => d.integer? "size"))
      = some ([("sizes", .size)], some [some 40, some Whole.power.val, some (-7)]) := by decide +kernel
  obtain ⟨s, x, opened, session, found⟩ := Host.exists_session_of_bind evaluated
  obtain ⟨t, table, eq⟩ := Option.map_eq_some_iff.1 found
  obtain ⟨entries, read⟩ := Prod.mk.inj eq
  obtain ⟨all, decodes, gets⟩ := Option.map_eq_some_iff.1 read
  have shown {d : Document} (mem : d ∈ all) : d.integer? "size" ∈ [some 40, some Whole.power.val, some (-7)] :=
    gets ▸ List.mem_map_of_mem mem
  obtain ⟨registered, single⟩ := Database.resolver_of_single entries
  have resolves : Collection.sizes.resolver.promoted
      ⊆ ((s.workspace x).current.resolver Collection.sizes.name.text).promoted := fun _ known => registered ▸ known
  have alone : ∀ q ∈ (s.workspace x).current.promotions, ¬ Site.Rival ⟨"sizes", .size⟩ q.site := by
    rintro ⟨collection, path, unique⟩ known rival
    obtain ⟨rfl, rfl⟩ := single _ known
    exact rival.2 (.refl _)
  have integers : ∀ d ∈ all, (d.integer? "size").isSome = true := by
    intro d mem
    have one := shown mem
    simp only [List.mem_cons, List.not_mem_nil, or_false] at one
    rcases one with eq | eq | eq <;> rw [eq] <;> rfl
  have doubles : ∀ d ∈ all, ∀ n, d.integer? "size" = some n → IsDouble n := by
    intro d mem n held
    have one := shown mem
    rw [held] at one
    simp only [List.mem_cons, List.not_mem_nil, or_false, Option.some.injEq] at one
    rcases one with rfl | rfl | rfl
    · exact isDouble_of_natAbs_le (by decide)
    · exact ⟨1, 60, by decide, by decide⟩
    · exact isDouble_of_natAbs_le (by decide)
  have calls : ∀ r ∈ StoreRequest.sizing Json.doubles, r.Within CollectionRequest.Distinct := by
    refine List.forall_mem_cons.2 ⟨trivial, List.forall_mem_cons.2 ⟨?_, List.forall_mem_singleton.2 trivial⟩⟩
    exact List.forall_mem_cons.2 ⟨rfl, List.forall_mem_cons.2 ⟨rfl, List.forall_mem_singleton.2 rfl⟩⟩
  have accepted : FieldRef.parse "size" = .ok (.body .size) := rfl
  have some_ : Bound.sizes ≠ [] := List.cons_ne_nil _ _
  obtain ⟨-, -, exact_⟩ :=
    ranges_of_reached (Disk.start_fresh []) calls (h := sized Json.doubles) (by rw [sized, blank]) opened session
      (c := Collection.sizes) resolves ⟨table, eq_ok_of_toOption decodes⟩ accepted (fun _ => alone) integers some_ (by decide)
  refine ⟨s, x, _, opened, session, exact_ doubles, ?_⟩
  have counted : ((all.map fun d => d.integer? "size").filter
      fun n? => n?.any fun n => Bound.sizes.all (·.admits n)).length = 2 := by rw [gets]; decide
  rwa [List.filter_map, List.length_map] at counted

/-- The only document has an integer of 54 bits and is not found in the range from this integer to the next one, because the
double nearest to it is below. -/
theorem Host.outside_own_range : ∃ s x d, (sized Json.between).store = some s ∧ s.session? "main" = some x
    ∧ ((Collection.sizes.find .null .all).result (s.workspace x)).1 = .ok [d] ∧ d.integer? "size" = some Whole.odd.val
    ∧ ((Collection.sizes.find (.asking "size" [("$gte", .number (.whole .odd)), ("$lt", .number (.whole .even))]) .all).result
      (s.workspace x)).1 = .ok [] := by
  have evaluated : ((sized Json.between).store.bind fun s => (s.session? "main").bind fun x =>
      ((Collection.sizes.find .null .all).result (s.workspace x)).1.toOption.map fun docs =>
        (docs.map fun d => d.integer? "size", ((Collection.sizes.find (.asking "size" [("$gte", .number (.whole .odd)),
          ("$lt", .number (.whole .even))]) .all).result (s.workspace x)).1.toOption.map List.length))
      = some ([some Whole.odd.val], some 0) := by decide +kernel
  obtain ⟨s, x, opened, session, found⟩ := Host.exists_session_of_bind evaluated
  obtain ⟨docs, all, eq⟩ := Option.map_eq_some_iff.1 found
  obtain ⟨sizes, counted⟩ := Prod.mk.inj eq
  obtain ⟨none_, given, length⟩ := Option.map_eq_some_iff.1 counted
  obtain rfl := List.length_eq_zero_iff.1 length
  obtain ⟨d, rfl, held⟩ := List.map_eq_singleton_iff.1 sizes
  exact ⟨s, x, d, opened, session, eq_ok_of_toOption all, held, eq_ok_of_toOption given⟩

end Dossier
