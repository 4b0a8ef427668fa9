import Dossier.Proofs.Collection.Selecting
import Dossier.Proofs.Store.Mirror

/-!
# Membership on reachable stores

`Host.memberships_of_reached`: in every store that calls lead to, a list without null selects with `$in` what some of its
values select with `$eq`, and with `$nin` what all of them select with `$ne`. `Host.null_within` is a document that is found
by the equality with null and not by the list that holds null alone.
-/

namespace Dossier

open Outcome
open Sql (limits)

namespace Collection

variable {c : Collection} {w : Workspace} {t : Table} {all : List Document} {d : Document} {field : String} {ref : FieldRef}
  {vs : List Json} {r : Row}

/-- Membership matches what an equality with one of the values matches, null left out. -/
theorem matches_in (accepted : FieldRef.parse field = .ok ref) : c.Matches t (.asking field [("$in", .array vs)]) r
    ↔ ∃ v ∈ vs, v ≠ .null ∧ c.Matches t (.asking field [("$eq", v)]) r := by
  have equality (v : Json) : c.Matches t (.asking field [("$eq", v)]) r ↔ r ∈ t.rows
      ∧ (((Condition.compare .eq v).term (c.resolver.operand ref)).holds r.read).isTrue = true :=
    matches_operator accepted (by decide) (by cases v <;> rfl)
  have read : Condition.parse field "$in" (.array vs) = .ok (.member false vs) := rfl
  rw [matches_operator accepted (by decide) read, Condition.isTrue_member]
  simp only [equality]
  exact ⟨fun ⟨mem, v, listed, proper, same⟩ => ⟨v, listed, proper, mem, same⟩,
    fun ⟨v, listed, proper, mem, same⟩ => ⟨mem, v, listed, proper, same⟩⟩

/-- Absence matches what the inequalities with all values match, and nothing as soon as there is a null. -/
theorem matches_nin (accepted : FieldRef.parse field = .ok ref) : c.Matches t (.asking field [("$nin", .array vs)]) r
    ↔ r ∈ t.rows ∧ ∀ v ∈ vs, v ≠ .null ∧ c.Matches t (.asking field [("$ne", v)]) r := by
  have inequality (v : Json) : c.Matches t (.asking field [("$ne", v)]) r ↔ r ∈ t.rows
      ∧ (((Condition.compare .ne v).term (c.resolver.operand ref)).holds r.read).isTrue = true :=
    matches_operator accepted (by decide) (by cases v <;> rfl)
  have read : Condition.parse field "$nin" (.array vs) = .ok (.member true vs) := rfl
  rw [matches_operator accepted (by decide) read, Condition.isTrue_notMember]
  refine and_congr_right fun mem => forall₂_congr fun v _ => and_congr_right fun _ => ?_
  rw [inequality, and_iff_right mem]

/-- The documents that the calls give for the four operators, where the rows decode. -/
theorem selects_memberships (orderly : w.Orderly) (numbered : t.Numbered) (shows : w.Shows c.name t all)
    (accepted : FieldRef.parse field = .ok ref) (proper : ∀ v ∈ vs, v ≠ .null) (few : vs.length ≤ limits.values) :
    ∃ inside outside, inside.Sublist all ∧ outside.Sublist all ∧ c.Selects w (.asking field [("$in", .array vs)]) inside
      ∧ c.Selects w (.asking field [("$nin", .array vs)]) outside
      ∧ ∀ d ∈ all, (d ∈ inside ↔ ∃ v ∈ vs, ∃ docs, c.Selects w (.asking field [("$eq", v)]) docs ∧ d ∈ docs)
        ∧ (d ∈ outside ↔ ∀ v ∈ vs, ∃ docs, c.Selects w (.asking field [("$ne", v)]) docs ∧ d ∈ docs) := by
  have parsedIn : Filter.parse (.asking field [("$in", .array vs)]) = .ok (.on field ref [.member false vs]) :=
    Filter.parse_operator accepted (by decide) rfl
  have parsedNin : Filter.parse (.asking field [("$nin", .array vs)]) = .ok (.on field ref [.member true vs]) :=
    Filter.parse_operator accepted (by decide) rfl
  have parsedEq (v : Json) : Filter.parse (.asking field [("$eq", v)]) = .ok (.on field ref [.compare .eq v]) :=
    Filter.parse_operator accepted (by decide) (by cases v <;> rfl)
  have parsedNe (v : Json) : Filter.parse (.asking field [("$ne", v)]) = .ok (.on field ref [.compare .ne v]) :=
    Filter.parse_operator accepted (by decide) (by cases v <;> rfl)
  have fits (negated : Bool) : (c.predicate (.on field ref [.member negated vs])).Fits := Filter.fits_member few
  obtain ⟨inside, -, insideOf, selectsIn⟩ := exists_selects orderly shows parsedIn (.of_fits (fits false))
  obtain ⟨outside, -, outsideOf, selectsNin⟩ := exists_selects orderly shows parsedNin (.of_fits (fits true))
  have given {filter : Json} {f : Filter} {docs : List Document} (parsed : Filter.parse filter = .ok f)
      (fits : (c.predicate f).Fits) (selects : c.Selects w filter docs) (d : Document) :
      d ∈ docs ↔ ∃ r, c.Matches t filter r ∧ r.document = .ok d := by
    rw [← mem_selects orderly shows parsed (.of_fits fits)]
    exact ⟨fun mem => ⟨docs, selects, mem⟩, fun ⟨other, selects', mem⟩ => selects.unique selects' ▸ mem⟩
  refine ⟨inside, outside, insideOf, outsideOf, selectsIn, selectsNin, fun d mem => ⟨?_, ?_⟩⟩
  · rw [given parsedIn (fits false) selectsIn d]
    simp only [mem_selects orderly shows (parsedEq _) (.of_fits Filter.fits_compare), matches_in accepted]
    constructor
    · rintro ⟨r, ⟨v, listed, -, same⟩, document⟩
      exact ⟨v, listed, r, same, document⟩
    · rintro ⟨v, listed, r, same, document⟩
      exact ⟨r, ⟨v, listed, proper v listed, same⟩, document⟩
  · rw [given parsedNin (fits true) selectsNin d]
    simp only [mem_selects orderly shows (parsedNe _) (.of_fits Filter.fits_compare), matches_nin accepted]
    obtain ⟨r, there, document⟩ := exists_of_mapM shows.decodes mem
    constructor
    · rintro ⟨s, ⟨-, apart⟩, document'⟩ v listed
      exact ⟨s, (apart v listed).2, document'⟩
    · intro apart
      refine ⟨r, ⟨there, fun v listed => ⟨proper v listed, ?_⟩⟩, document⟩
      obtain ⟨s, matched, document'⟩ := apart v listed
      obtain ⟨f, -, selected⟩ := id matched
      rwa [eq_of_document numbered there (List.mem_filter.1 selected).1 document document']

end Collection

/-- In a store that starts without a database, wherever calls lead to, for a list without null and every field: the rows of a
collection that `$in` selects are those that `$eq` selects for some value of the list, and those that `$nin` selects are those
that `$ne` selects for all of them; and so it is with the documents that finding, finding one and counting are about, if the
rows decode and the list has no more values than a statement takes. -/
theorem Host.memberships_of_reached {disk : Disk} {settings : Settings} {ids : IdSource} {clock : Clock}
    {requests : List StoreRequest} (fresh : ∀ e ∈ disk.entries, ∀ f, e.2 ≠ .database f)
    (calls : ∀ r ∈ requests, r.Within fun _ => True) {h : Host}
    (reached : ((start disk settings ids clock).callAll requests).2 = h) {s : Store} (opened : h.store = some s)
    {name : String} {x : Session} (session : s.session? name = some x) {c : Collection} {t : Table}
    (found : (s.workspace x).current.table? c.name.text = some t) {field : String} {ref : FieldRef}
    (accepted : FieldRef.parse field = .ok ref) {vs : List Json} (proper : ∀ v ∈ vs, v ≠ .null) :
    (∀ r, c.Matches t (.asking field [("$in", .array vs)]) r ↔ ∃ v ∈ vs, c.Matches t (.asking field [("$eq", v)]) r)
      ∧ (∀ r ∈ t.rows, c.Matches t (.asking field [("$nin", .array vs)]) r
        ↔ ∀ v ∈ vs, c.Matches t (.asking field [("$ne", v)]) r)
      ∧ (vs.length ≤ limits.values → ∀ all, t.rows.mapM Row.document = .ok all → ∃ inside outside, inside.Sublist all ∧ outside.Sublist all
        ∧ c.Selects (s.workspace x) (.asking field [("$in", .array vs)]) inside
        ∧ c.Selects (s.workspace x) (.asking field [("$nin", .array vs)]) outside
        ∧ ∀ d ∈ all,
          (d ∈ inside ↔ ∃ v ∈ vs, ∃ docs, c.Selects (s.workspace x) (.asking field [("$eq", v)]) docs ∧ d ∈ docs)
          ∧ (d ∈ outside ↔ ∀ v ∈ vs, ∃ docs, c.Selects (s.workspace x) (.asking field [("$ne", v)]) docs ∧ d ∈ docs)) := by
  have good : h.Good Database.Numbered := good_of_reached Database.kept_numbered fresh calls reached
  have here := good.workspace opened session
  have numbered := here.current.tables t (Database.mem_of_table? found).1
  refine ⟨fun r => ?_, fun r mem => ?_, fun few all decodes => ?_⟩
  · rw [Collection.matches_in accepted]
    exact exists_congr fun v => and_congr_right fun listed => and_iff_right (proper v listed)
  · rw [Collection.matches_nin accepted, and_iff_right mem]
    exact forall₂_congr fun v listed => and_iff_right (proper v listed)
  · exact Collection.selects_memberships here.orderly numbered ⟨found, decodes⟩ accepted proper few

/-- Calls that insert a document with a number, one with a text, and one with neither. -/
def StoreRequest.mixing : List StoreRequest :=
  [.reopen none, .session "main" (.within "mixed" (.insertMany
    [.object [("_id", .string "x"), ("mark", .number (.whole ⟨17, by decide⟩))],
      .object [("_id", .string "y"), ("mark", .string "17")], .object [("_id", .string "z")]]))]

/-- The host after these calls, and the collection of the documents. -/
def Host.mixed : Host := (blank.callAll StoreRequest.mixing).2
def Collection.mixed : Collection := ⟨⟨"mixed", by decide⟩, ⟨[]⟩⟩

/-- A list with a repeated number and a container. -/
def Json.mixture : List Json :=
  [.number (.whole ⟨17, by decide⟩), .array [.string "17"], .number (.whole ⟨17, by decide⟩)]

theorem Host.memberships_of_reached_mixed : ∃ s x, ∃ all inside outside : List Document, mixed.store = some s ∧ s.session? "main" = some x
    ∧ Collection.mixed.Selects (s.workspace x) (.asking "mark" [("$in", .array Json.mixture)]) inside ∧ inside.length = 1
    ∧ Collection.mixed.Selects (s.workspace x) (.asking "mark" [("$nin", .array Json.mixture)]) outside ∧ outside.length = 1
    ∧ ∀ d ∈ all, (d ∈ inside ↔ ∃ v ∈ Json.mixture, ∃ docs,
        Collection.mixed.Selects (s.workspace x) (.asking "mark" [("$eq", v)]) docs ∧ d ∈ docs)
      ∧ (d ∈ outside ↔ ∀ v ∈ Json.mixture, ∃ docs,
        Collection.mixed.Selects (s.workspace x) (.asking "mark" [("$ne", v)]) docs ∧ d ∈ docs) := by
  have evaluated : (mixed.store.bind fun s => (s.session? "main").bind fun x =>
      ((s.workspace x).current.table? "mixed").map fun t => ((t.rows.mapM Row.document).toOption.map List.length,
        ((Collection.mixed.count (.asking "mark" [("$in", .array Json.mixture)])).result (s.workspace x)).1.toOption,
        ((Collection.mixed.count (.asking "mark" [("$nin", .array Json.mixture)])).result (s.workspace x)).1.toOption))
      = some (some 3, some 1, some 1) := by decide +kernel
  obtain ⟨s, x, opened, session, found⟩ := Host.exists_session_of_bind evaluated
  obtain ⟨t, table, eq⟩ := Option.map_eq_some_iff.1 found
  obtain ⟨read, counts⟩ := Prod.mk.inj eq
  obtain ⟨countIn, countNin⟩ := Prod.mk.inj counts
  obtain ⟨all, decodes, -⟩ := Option.map_eq_some_iff.1 read
  have calls : ∀ r ∈ StoreRequest.mixing, r.Within fun _ => True := by
    simp [StoreRequest.mixing, StoreRequest.Within, Request.Within]
  have accepted : FieldRef.parse "mark" = .ok (.body ⟨["mark"], by decide, by decide⟩) := rfl
  have proper : ∀ v ∈ Json.mixture, v ≠ .null := by simp [Json.mixture]
  obtain ⟨-, -, documents⟩ :=
    memberships_of_reached (Disk.start_fresh []) calls (h := mixed) (by rw [mixed, blank]) opened session
      (c := Collection.mixed) table accepted proper
  obtain ⟨inside, outside, -, -, selectsIn, selectsNin, same⟩ := documents (by decide) all (eq_ok_of_toOption decodes)
  have one (docs : List Document) (counted : some (docs.length : Int) = some 1) : docs.length = 1 :=
    Int.ofNat.inj (Option.some.inj counted)
  rw [selectsIn.count] at countIn
  rw [selectsNin.count] at countNin
  exact ⟨s, x, all, inside, outside, opened, session, selectsIn, one _ countIn, selectsNin, one _ countNin, same⟩

/-- The equality with null finds the document without the field, and the list that holds null alone finds none; the
inequality with null counts the two others, and the absence from the list again none. -/
theorem Host.null_within : ∃ s x, mixed.store = some s ∧ s.session? "main" = some x
    ∧ (∃ d, ((Collection.mixed.find (.asking "mark" [("$eq", .null)]) .all).result (s.workspace x)).1 = .ok [d])
    ∧ ((Collection.mixed.find (.asking "mark" [("$in", .array [.null])]) .all).result (s.workspace x)).1 = .ok []
    ∧ ((Collection.mixed.count (.asking "mark" [("$ne", .null)])).result (s.workspace x)).1 = .ok 2
    ∧ ((Collection.mixed.count (.asking "mark" [("$nin", .array [.null])])).result (s.workspace x)).1 = .ok 0 := by
  have evaluated : (mixed.store.bind fun s => (s.session? "main").map fun x =>
      (((Collection.mixed.find (.asking "mark" [("$eq", .null)]) .all).result (s.workspace x)).1.toOption.map List.length,
        ((Collection.mixed.find (.asking "mark" [("$in", .array [.null])]) .all).result
          (s.workspace x)).1.toOption.map List.length,
        ((Collection.mixed.count (.asking "mark" [("$ne", .null)])).result (s.workspace x)).1.toOption,
        ((Collection.mixed.count (.asking "mark" [("$nin", .array [.null])])).result (s.workspace x)).1.toOption))
      = some (some 1, some 0, some 2, some 0) := by decide +kernel
  obtain ⟨s, x, opened, session, answers⟩ := Host.exists_session_of_map evaluated
  obtain ⟨equal, answers⟩ := Prod.mk.inj answers
  obtain ⟨within, counts⟩ := Prod.mk.inj answers
  obtain ⟨unequal, outside⟩ := Prod.mk.inj counts
  obtain ⟨docs, equal, one⟩ := Option.map_eq_some_iff.1 equal
  obtain ⟨none', within, zero⟩ := Option.map_eq_some_iff.1 within
  obtain ⟨d, rfl⟩ := List.length_eq_one_iff.1 one
  obtain rfl := List.length_eq_zero_iff.1 zero
  exact ⟨s, x, opened, session, ⟨d, eq_ok_of_toOption equal⟩, eq_ok_of_toOption within, eq_ok_of_toOption unequal,
    eq_ok_of_toOption outside⟩

end Dossier
