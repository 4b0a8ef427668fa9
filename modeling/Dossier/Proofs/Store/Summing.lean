import Dossier.Proofs.Collection.Selecting
import Dossier.Proofs.Collection.Touching
import Dossier.Proofs.Store.Atomic
import Dossier.Proofs.Store.Touching
import Dossier.Proofs.Update.Exact

/-!
# Increments of stored integers

A document that an update has been about holds the exact sum at the path of an increment of an integer by another one, whichever
strategy has made the update (`Collection.sum_of_treated`). Where the first document that an update is about has a sum that
overflows, and nothing else stands in the way, the update fails with that error (`Collection.overflow_of_first`).

`Host.sums_of_reached`: in every store that calls lead to, an update adds integers of 64 signed bits exactly, or it fails and
changes nothing; where the sum of the first document overflows and nothing else stands in the way, it fails with that error.
`Host.rounded` is an integer of 64 unsigned bits that an increment turns into a double.
-/

namespace Dossier

open Dossier.Action Database Outcome

theorem Changes.admitted_of_complaint? {c : Changes} {b : Body} (fine : c.complaint? b = .none) : c.Admitted b.tree := by
  rw [Changes.complaint?, Option.map_eq_none_iff, List.find?_eq_none] at fine
  exact fun g mem => Bool.eq_false_iff.2 (fine g mem)

/-- An integer of a written tree is read from its text as it is. -/
theorem Body.lookup?_of_text {b : Body} {t : Tree} (written : t.IsWritten) (text : b.text = t.text) {path : List String} {n : Int}
    (found : t.lookup? path = some (.number (Number.intText n))) : b.tree.lookup? path = some (.number (Number.intText n)) := by
  have read := Tree.lookup?_asRead found
  rwa [Tree.asRead_eq_self (.number (Number.intText n)) (isNumber_intText n), ← (Body.tree_eq_asRead written text).1] at read

namespace Collection

variable {c : Collection} {changes : Changes} {f : Filter} {cardinality : Cardinality} {path : FieldPath} {delta : Number}
  {m n : Int}

/-! ## Updates that succeed -/

/-- What an update has made of a body, or left of it, has the sum of an integer and a signed delta at the path of the delta. -/
theorem sum_of_treated {b b' : Body} (treated : c.Makes (.change changes) b b' ∨ b' = b ∧ c.Leaves (.change changes) b)
    (upheld : b.Upholds Tree.Distinct) (apart : Changes.conflict? changes.paths = none) (mem : (path, delta) ∈ changes.inc)
    (hd : delta.signed? = some n) (counts : b.tree.Counts path.segments m) :
    Value.fits (m + n) = true ∧ b'.tree.lookup? path.segments = some (.number (Number.intText (m + n))) := by
  -- in place, with or without another text
  have edited : changes.complaint? b = none → b'.text = (changes.edit b.tree).text →
      Value.fits (m + n) = true ∧ b'.tree.lookup? path.segments = some (.number (Number.intText (m + n))) := fun fine text =>
    have admitted := Changes.admitted_of_complaint? fine
    ⟨admitted.fits mem hd counts, Body.lookup?_of_text (Changes.isWritten_edit upheld.isWritten) text
      (admitted.sum upheld.object apart mem hd counts)⟩
  rcases treated with made | ⟨rfl, left⟩
  · cases made with
    | edited placed fine differs text =>
      cases Update.inPlace?_eq_some placed
      exact edited fine text
    | rewritten placed decoded applied changed text =>
      obtain ⟨fits, bounds, stored⟩ := Changes.sum_of_apply apart upheld.tree (Body.json?_of_decode decoded) applied mem hd counts
      refine ⟨fits, Body.lookup?_of_text (Json.isWritten_tree _) text ?_⟩
      rw [Json.lookup?_tree path.nonempty, stored]
      rfl
  · cases left with
    | edited placed fine same =>
      cases Update.inPlace?_eq_some placed
      exact edited fine same.symm
    | rewritten placed decoded applied same =>
      exact ⟨(Changes.sum_of_apply apart upheld.tree (Body.json?_of_decode decoded) applied mem hd counts).1,
        Changes.sum_of_equal apart upheld.tree (Body.json?_of_decode decoded) applied same mem hd counts⟩

/-! ## Updates that fail -/

variable {u : Update} {db : Database} {t : Table} {clock : Clock} {row : Row} {rest : List Row} {fields : Fields} {e : ApplyError}

/-- An update document by document fails with the error of the first document, and changes nothing. -/
theorem runs_overwriteMatching_error (fits : (c.predicate f).Fits) (found : db.table? c.name.text = some t)
    (targets : t.targets (c.predicate f) cardinality = row :: rest)
    (decodes : ∀ r ∈ row :: rest, ∃ fields, r.data.decode = .ok fields) (decoded : row.data.decode = .ok fields)
    (failed : u.apply fields = .error e) :
    Runs clock clock.rest db (c.overwriteMatching f u cardinality) (.error (.apply e)) db := by
  have each : ∀ r ∈ row :: rest, ∃ d, (do return (r.id, ← r.data.decode) : Except StoreError (String × Fields)) = .ok d :=
    fun r mem => by
      obtain ⟨fields, decoded⟩ := decodes r mem
      exact ⟨(r.id, fields), by rw [decoded]; rfl⟩
  obtain ⟨ds, read⟩ := exists_mapM each
  obtain ⟨d, others, first, -, rfl⟩ := mapM_cons_eq_ok.1 read
  rw [decoded] at first
  cases first
  have fetched : Runs clock clock db (c.execute (.fetch (c.predicate f) cardinality)) (.ok (row :: rest)) db :=
    Runs.rows (by rw [run_of_fits (fits.fetch cardinality), answer, tableOf_eq_ok.2 found, ok_bind, targets]; rfl)
  have bodies : Runs clock clock db (Action.ofStore ((row :: rest).mapM fun r => do return (r.id, ← r.data.decode)))
      (.ok ((row.id, fields) :: others)) db := by
    rw [read]
    exact .ofStore _
  have change : Runs clock.rest clock.rest db (Action.ofChange (u.apply fields)) (.error (.apply e)) db := by
    rw [failed]
    exact .ofChange _
  have one : Runs clock.rest clock.rest db (c.overwriteOne u clock.now 0 (row.id, fields)) (.error (.apply e)) db := change.bind_error
  have all : Runs clock.rest clock.rest db (((row.id, fields) :: others).foldlM (c.overwriteOne u clock.now) 0) (.error (.apply e)) db := by
    rw [List.foldlM_cons]
    exact one.bind_error
  exact fetched.bind (bodies.bind (Runs.now.bind all.bind_error))

/-- Where nothing else stands in the way and the first document has a sum that overflows, both strategies fail with such an error. -/
theorem runs_strategy_overflow (clock : Clock) (fit : changes.Fit (c.predicate f) cardinality) (found : db.table? c.name.text = some t)
    (targets : t.targets (c.predicate f) cardinality = row :: rest)
    (decodes : ∀ r ∈ row :: rest, ∃ fields, r.data.decode = .ok fields) (upheld : row.data.Upholds Tree.Distinct)
    (apart : Changes.conflict? changes.paths = none) (integral : changes.Integral row.data.tree)
    (overflows : ∃ e, changes.Overflow row.data.tree e) :
    ∃ e next, changes.Overflow row.data.tree e
      ∧ Runs clock next db (c.strategy f (.change changes) cardinality) (.error (.apply e)) db := by
  obtain ⟨_, path, delta, m, n, mem, counts, hd, beyond, -⟩ := overflows
  unfold strategy
  split
  · rename_i c' placed
    cases Update.inPlace?_eq_some placed
    cases complaint : changes.complaint? row.data with
    | none =>
      have fits := (Changes.admitted_of_complaint? complaint).fits mem hd counts
      cases fits.symm.trans beyond
    | some e =>
      have first : complaintOf? changes (t.targets (c.predicate f) cardinality) = some e := by
        rw [targets, complaintOf?, List.findSome?_cons, complaint]
      obtain ⟨g, violated, rfl⟩ := Option.map_eq_some_iff.1 complaint
      exact ⟨_, _, integral.overflow_of_guard (List.mem_of_find?_eq_some violated)
          (List.find?_some (p := fun g : Guard => (g.holds row.data.tree).isTrue) violated),
        runs_updateInPlace_error fit found first⟩
  · obtain ⟨fields, decoded⟩ := decodes row List.mem_cons_self
    have read := Body.json?_of_decode decoded
    cases applied : (Update.change changes).apply fields with
    | ok after =>
      have fits := (Changes.sum_of_apply apart upheld.tree read applied mem hd counts).1
      cases fits.symm.trans beyond
    | error e =>
      exact ⟨e, _, integral.overflow_of_apply apart upheld.tree read applied,
        runs_overwriteMatching_error fit.reads found targets decodes decoded applied⟩

/-- An update fails with the overflow of its first document, where nothing else stands in the way, unless another connection
holds the lock. -/
theorem overflow_of_first {w : Workspace} (orderly : w.Orderly) (unlocked : w.Unlocked)
    (fit : changes.Fit (c.predicate f) cardinality)
    (found : w.current.table? c.name.text = some t) (targets : t.targets (c.predicate f) cardinality = row :: rest)
    (decodes : ∀ r ∈ row :: rest, ∃ fields, r.data.decode = .ok fields) (upheld : row.data.Upholds Tree.Distinct)
    (apart : Changes.conflict? changes.paths = none) (integral : changes.Integral row.data.tree)
    (overflows : ∃ e, changes.Overflow row.data.tree e) (wanted : Bool) :
    ∃ e, changes.Overflow row.data.tree e ∧ ((c.runUpdate f (.change changes) cardinality wanted).result w).1 = .error (.apply e) := by
  obtain ⟨u, hu, below, current, -, -, level⟩ := exists_level (α := UpdateResult) orderly unlocked
  obtain ⟨e, next, overflow, runs⟩ := runs_strategy_overflow u.clock fit found targets decodes upheld apart integral overflows
  have whole := runs.bind_error (f := c.insertMissing f (.change changes) wanted)
  obtain ⟨failed, kept, -, -⟩ := whole u hu (by rw [below]; exact Workspace.opened_isSome w) rfl current
  obtain ⟨v, ran, -⟩ := level _ kept.orderly kept.base
  refine ⟨e, overflow, ?_⟩
  rw [runUpdate_eq, ran, failed]

end Collection

end Dossier

/-! ## Reachable stores -/

namespace Dossier

open Dossier.Action Outcome

namespace Collection

variable {c : Collection} {w : Workspace} {filter change : Json} {f : Filter} {u : Update} {cardinality : Cardinality} {wanted : Bool}

/-- A call fails if the update that it asks for fails. -/
theorem perform_update_error (parsed : Filter.parse filter = .ok f) (accepted : Update.parse change = .ok u)
    (sets : cardinality = .many → u.hasSet = true) {e : StoreError}
    (failed : ((c.runUpdate f u cardinality wanted).result w).1 = .error e) :
    (((CollectionRequest.update cardinality filter change wanted).perform c).result w).1 = .error e := by
  have answered : ∀ a : Action UpdateResult, a.result w = (c.runUpdate f u cardinality wanted).result w →
      ((CollectionReply.updated <$> a).result w).1 = .error e := fun a same => by
    rw [result_map, same, failed]
    rfl
  cases cardinality with
  | one => exact answered _ (result_readUpdate parsed accepted _)
  | many =>
    refine answered (c.updateMany filter change wanted) ((result_readUpdate parsed accepted _).trans ?_)
    simp only [sets rfl, Bool.not_true, Bool.false_eq_true, if_false]

end Collection

/-- In a store that starts without a database, when no value in the calls repeats a key, wherever calls lead to: an update that
succeeds has left, in every document that it is about, at the path of each increment by an integer of 64 signed bits, if the
document has such an integer there or nothing, the exact sum, which is one of 64 signed bits. An update that fails changes
nothing. And where the first document that an update is about has a sum that is none, nothing stands in the way of what the update
writes, and it adds up only such integers, it fails with the overflow of such a path: as long as its statements fit, the documents
decode, no other connection holds the lock, and an update of many documents sets something. -/
theorem Host.sums_of_reached {disk : Disk} {settings : Settings} {ids : IdSource} {clock : Clock}
    {requests : List StoreRequest} (fresh : ∀ e ∈ disk.entries, ∀ f, e.2 ≠ .database f)
    (calls : ∀ r ∈ requests, r.Within CollectionRequest.Distinct) {h : Host}
    (reached : ((start disk settings ids clock).callAll requests).2 = h) {s : Store} (opened : h.store = some s)
    {name : String} {x : Session} (session : s.session? name = some x) {c : Collection} {t : Table}
    (found : (s.workspace x).current.table? c.name.text = some t) {filter change : Json} {f : Filter} {changes : Changes}
    (parsed : Filter.parse filter = .ok f) (accepted : Update.parse change = .ok (.change changes)) {cardinality : Cardinality}
    {wanted : Bool} {answer : Except StoreError CollectionReply} {v : Workspace}
    (made : ((CollectionRequest.update cardinality filter change wanted).perform c).result (s.workspace x) = (answer, v)) :
    (∀ result, answer = .ok (.updated result) → ∃ t', v.current.table? c.name.text = some t'
        ∧ ∀ r ∈ t.targets (c.predicate f) cardinality, ∃ r' ∈ t'.rows, r'.id = r.id
          ∧ ∀ path delta m n, (path, delta) ∈ changes.inc → r.data.tree.Counts path.segments m → delta.signed? = some n →
            Value.fits (m + n) = true ∧ r'.data.tree.lookup? path.segments = some (.number (Number.intText (m + n))))
      ∧ (∀ e, answer = .error e → v.connection.file.contents = s.file.contents ∧ v.connection.transaction = x.transaction
        ∧ v.depth = x.depth)
      ∧ ∀ r rest, t.targets (c.predicate f) cardinality = r :: rest → (∀ r' ∈ r :: rest, ∃ d, r'.document = .ok d) →
        changes.Integral r.data.tree → (∃ e, changes.Overflow r.data.tree e) → (s.workspace x).Unlocked →
        changes.Fit (c.predicate f) cardinality → (cardinality = .many → changes.set ≠ []) →
        ∃ e, changes.Overflow r.data.tree e ∧ answer = .error (.apply e) := by
  have kept : Kept (fun db => db.Numbered ∧ db.Bodies (Body.Upholds Tree.Distinct)) CollectionRequest.Distinct :=
    (Database.kept_numbered.mono fun _ _ => trivial).and (kept_bodies.mono fun _ distinct => distinct.writes)
  have good : h.Good fun db => db.Numbered ∧ db.Bodies (Body.Upholds Tree.Distinct) :=
    good_of_reached kept fresh calls reached
  have here := good.workspace opened session
  obtain ⟨numbered, bodies⟩ := here.current
  have apart := (Update.parse_change accepted).1
  have stored : ∀ r ∈ t.targets (c.predicate f) cardinality, r ∈ t.rows := fun r mem =>
    (Database.targets_sublist t _ cardinality).subset mem
  refine ⟨fun result eq => ?_, fun e eq => ?_, fun r rest targets documents integral overflows unlocked fit sets => ?_⟩
  · subst eq
    obtain ⟨_, ran⟩ := Collection.exists_runUpdate (show (CollectionRequest.update cardinality filter change wanted).updates?
      = some (filter, change, cardinality) from rfl) parsed accepted made
    obtain ⟨t', found', ran, -⟩ := Collection.ran_of_runUpdate here.orderly numbered found ran
    refine ⟨t', found', fun r target => ?_⟩
    obtain ⟨r', mem, id, treated⟩ := ran.treated (numbered.tables t (Database.mem_of_table? found).1) target
    refine ⟨r', mem, id, fun path delta m n entry counts hd => ?_⟩
    exact Collection.sum_of_treated treated (bodies.row found r (stored r target)) apart entry hd counts
  · subst eq
    have same := CollectionRequest.same_of_failed here.orderly made
    exact ⟨same.contents, same.transaction, same.depth⟩
  · have decodes : ∀ r' ∈ r :: rest, ∃ fields, r'.data.decode = .ok fields := by
      intro r' target
      obtain ⟨d, document⟩ := documents r' target
      exact ⟨_, (Row.document_eq_ok document).2⟩
    have upheld := bodies.row found r (stored r (targets ▸ List.mem_cons_self))
    obtain ⟨e, overflow, failed⟩ :=
      Collection.overflow_of_first here.orderly unlocked fit found targets decodes upheld apart integral overflows wanted
    have answered := Collection.perform_update_error parsed accepted (fun many => by
      simpa [Update.hasSet] using sets many) failed
    rw [made] at answered
    exact ⟨e, overflow, answered⟩

theorem FieldPath.plain_tally : ∀ s ∈ ["n"], IsSegment s := by decide

/-- The path `n`. -/
def FieldPath.tally : FieldPath := ⟨["n"], by decide, plain_tally⟩

/-- A collection without promoted paths, and one in which `n` is promoted. -/
def Collection.tallies : Collection := ⟨⟨"tallies", by decide⟩, ⟨[]⟩⟩
def Collection.columnedTallies : Collection := ⟨tallies.name, ⟨[.tally]⟩⟩

/-- A call of the collection. -/
def StoreRequest.ofTallies (request : CollectionRequest) : StoreRequest := .session "main" (.within "tallies" request)

/-- The body of a document with a number. -/
def Fields.tally (n : Number) : Fields := [("n", .number n)]

/-- Calls that insert a document with a number. -/
def StoreRequest.tally (n : Number) : List StoreRequest :=
  [.reopen none, ofTallies (.insertOne (.object (("_id", .string "x") :: Fields.tally n)))]

/-- The number forty, and the greatest one of 64 signed bits. -/
def Number.forty : Number := .whole ⟨40, Whole.bounds_forty⟩
def Number.greatest : Number := .whole ⟨0x7fffffffffffffff, by decide⟩

/-- An increment of the number, and the call that makes it. -/
def Json.tallyBy (n : Number) : Json := .object [("$inc", .object [("n", .number n)])]
def CollectionRequest.tallyBy (n : Number) : CollectionRequest := .update .one .onlyX (.tallyBy n) false
def Changes.tallyBy (n : Number) : Changes := ⟨[], [], [(.tally, n)]⟩

/-- The host after these calls. -/
def Host.tallied : Host := (blank.callAll (StoreRequest.tally .forty)).2

theorem Host.sums_of_reached_tallied : ∃ s x t r t' r' v v', tallied.store = some s ∧ s.session? "main" = some x
    ∧ (s.workspace x).current.table? "tallies" = some t ∧ t.rows = [r]
    ∧ r.data.tree.lookup? ["n"] = some (.number (Number.intText 40))
    ∧ ((CollectionRequest.tallyBy .forty).perform .tallies).result (s.workspace x) = (.ok (.updated ⟨1, 1, none⟩), v)
    ∧ v.current.table? "tallies" = some t' ∧ r' ∈ t'.rows
    ∧ r'.data.tree.lookup? ["n"] = some (.number (Number.intText 80))
    ∧ ((CollectionRequest.tallyBy .greatest).perform .tallies).result (s.workspace x) = (.error (.apply (.overflow "n")), v') := by
  have evaluated : (tallied.store.bind fun s => (s.session? "main").bind fun x =>
      ((s.workspace x).current.table? "tallies").map fun t => (t.rows.map fun r => r.data.text,
        (t.rows.mapM Row.document).toOption.isSome,
        (Filter.parse .onlyX).toOption.map fun f => (t.targets (Collection.tallies.predicate f) .one).length,
        ((CollectionRequest.tallyBy .forty).perform .tallies).result (s.workspace x) |>.1.toOption.bind CollectionReply.result?,
        (s.workspace x).connection.file.writer.isNone))
      = some ([(Json.object (Fields.tally .forty)).text], true, some 1, some ⟨1, 1, none⟩, true) := by decide +kernel
  obtain ⟨s, x, opened, session, found⟩ := Host.exists_session_of_bind evaluated
  obtain ⟨t, table, eq⟩ := Option.map_eq_some_iff.1 found
  obtain ⟨texts, rest⟩ := Prod.mk.inj eq
  obtain ⟨read, rest⟩ := Prod.mk.inj rest
  obtain ⟨count, rest⟩ := Prod.mk.inj rest
  obtain ⟨answered, free⟩ := Prod.mk.inj rest
  obtain ⟨r, single, text⟩ := List.map_eq_singleton_iff.1 texts
  obtain ⟨f, parsed, one⟩ := Option.map_eq_some_iff.1 count
  obtain ⟨docs, decodes⟩ := Option.isSome_iff_exists.1 read
  have parsed := eq_ok_of_toOption parsed
  have tree : r.data.tree = (Json.object (Fields.tally .forty)).tree := Body.tree_of_text (by decide +kernel) text
  have here : r.data.tree.lookup? ["n"] = some (.number (Number.intText 40)) := by rw [tree]; rfl
  have counts : r.data.tree.Counts FieldPath.tally.segments 40 := .integer (by decide) here
  have targets : t.targets (Collection.tallies.predicate f) .one = [r] := by
    obtain ⟨r', only⟩ := List.length_eq_one_iff.1 one
    have within := (Database.targets_sublist t (Collection.tallies.predicate f) .one).subset
    rw [single, only] at within
    rw [only, List.mem_singleton.1 (within List.mem_cons_self)]
  have few : Update.parse (.tallyBy .forty) = .ok (.change (.tallyBy .forty)) := rfl
  have many : Update.parse (.tallyBy .greatest) = .ok (.change (.tallyBy .greatest)) := rfl
  have calls : ∀ r ∈ StoreRequest.tally .forty, r.Within CollectionRequest.Distinct :=
    List.forall_mem_cons.2 ⟨trivial, List.forall_mem_singleton.2 rfl⟩
  cases made : ((CollectionRequest.tallyBy .forty).perform .tallies).result (s.workspace x) with
  | mk answer v =>
  cases failed : ((CollectionRequest.tallyBy .greatest).perform .tallies).result (s.workspace x) with
  | mk answer' v' =>
  rw [made] at answered
  cases answer with
  | error e => cases answered
  | ok reply =>
  obtain rfl := CollectionReply.result?_eq_some answered
  obtain ⟨t', found', each⟩ :=
    (sums_of_reached (Disk.start_fresh []) calls (h := tallied) (by rw [tallied, blank]) opened session (c := .tallies) table
      parsed few made).1 _ rfl
  obtain ⟨r', mem, -, sums⟩ := each r (targets ▸ List.mem_singleton_self r)
  have sum := (sums .tally .forty 40 40 (List.mem_singleton_self _) counts rfl).2
  have documents : ∀ r' ∈ [r], ∃ d, r'.document = .ok d := fun r' mem => by
    obtain ⟨d, -, document⟩ := exists_of_mem_mapM (eq_ok_of_toOption decodes) (single ▸ mem)
    exact ⟨d, document⟩
  have integral : (Changes.tallyBy .greatest).Integral r.data.tree := by
    refine ⟨fun p mem => ?_, fun e mem => ?_⟩
    · obtain rfl := List.mem_singleton.1 mem
      exact ⟨⟨_, tree⟩, fun _ _ => trivial⟩
    · obtain rfl := List.mem_singleton.1 mem
      exact ⟨40, 0x7fffffffffffffff, counts, rfl⟩
  have overflows : ∃ e, (Changes.tallyBy .greatest).Overflow r.data.tree e :=
    ⟨_, .tally, .greatest, 40, 0x7fffffffffffffff, List.mem_singleton_self _, counts, rfl, by decide, rfl⟩
  have fit : (Changes.tallyBy .greatest).Fit (Collection.tallies.predicate f) .one := by
    cases parsed
    exact ⟨fun s search => by cases search; decide, fun _ => ⟨rfl, List.forall_mem_singleton.2 rfl⟩⟩
  obtain ⟨e, ⟨path, delta, _, _, entry, -, -, -, rfl⟩, overflow⟩ :=
    (sums_of_reached (Disk.start_fresh []) calls (h := tallied) (by rw [tallied, blank]) opened session (c := .tallies) table
      parsed many failed).2.2 r [] targets documents integral overflows (fun _ => Option.isNone_iff_eq_none.1 free)
        fit fun several => by cases several
  obtain ⟨rfl, rfl⟩ := Prod.mk.inj (List.mem_singleton.1 entry)
  exact ⟨s, x, t, r, t', r', v, v', opened, session, table, single, here, made, found', mem, sum, failed.trans (Prod.ext overflow rfl)⟩

/-! ## Integers past 63 bits -/

theorem Number.bounds_past : (-0x8000000000000000 : Int) ≤ 0x8000000000000000 ∧ (0x8000000000000000 : Int) < 0x10000000000000000 := by
  decide

/-- The number `2 ^ 63`, and one. -/
def Number.past : Number := .whole ⟨0x8000000000000000, bounds_past⟩
def Number.one : Number := .whole ⟨1, Whole.bounds_one⟩

/-- Calls that insert a document with the number and promote its path. -/
def StoreRequest.past : List StoreRequest := tally .past ++ [ofTallies (.promote "n" false)]

/-- The host after these calls. -/
def Host.past : Host := (blank.callAll StoreRequest.past).2

/-- The path at which a call has failed with an overflow. -/
def StoreError.overflow? {α : Type} : Except StoreError α → Option String
  | .error (.apply (.overflow path)) => some path
  | _ => none

theorem StoreError.overflow?_eq_some {α : Type} {r : Except StoreError α} {path : String} (overflow : overflow? r = some path) :
    r = .error (.apply (.overflow path)) := by
  unfold overflow? at overflow
  split at overflow
  · cases overflow
    rfl
  · cases overflow

/-- An increment by one that succeeds turns an integer of 64 unsigned bits into a double; where the path is not promoted, the same
increment is refused as an overflow. -/
theorem Host.rounded : ∃ s x t t' v, past.store = some s ∧ s.session? "main" = some x
    ∧ (s.workspace x).current.table? "tallies" = some t
    ∧ t.rows.map (fun r => r.data.text) = [(Json.object (Fields.tally .past)).text]
    ∧ ((CollectionRequest.tallyBy .one).perform .columnedTallies).result (s.workspace x) = (.ok (.updated ⟨1, 1, none⟩), v)
    ∧ v.current.table? "tallies" = some t'
    ∧ t'.rows.map (fun r => (r.data.tree.lookup? ["n"]).map Tree.typeName) = [some "real"]
    ∧ (((CollectionRequest.tallyBy .one).perform .tallies).result (s.workspace x)).1 = .error (.apply (.overflow "n")) := by
  have evaluated : (past.store.bind fun s => (s.session? "main").bind fun x =>
      ((s.workspace x).current.table? "tallies").bind fun t =>
        let ran := ((CollectionRequest.tallyBy .one).perform .columnedTallies).result (s.workspace x)
        (ran.2.current.table? "tallies").map fun t' => (t.rows.map fun r => r.data.text,
          ran.1.toOption.bind CollectionReply.result?, t'.rows.map fun r => (r.data.tree.lookup? ["n"]).map Tree.typeName,
          StoreError.overflow? (((CollectionRequest.tallyBy .one).perform .tallies).result (s.workspace x)).1))
      = some ([(Json.object (Fields.tally .past)).text], some ⟨1, 1, none⟩, [some "real"], some "n") := by decide +kernel
  obtain ⟨s, x, opened, session, found⟩ := Host.exists_session_of_bind evaluated
  obtain ⟨t, table, found⟩ := Option.bind_eq_some_iff.1 found
  obtain ⟨t', table', eq⟩ := Option.map_eq_some_iff.1 found
  obtain ⟨texts, rest⟩ := Prod.mk.inj eq
  obtain ⟨answered, rest⟩ := Prod.mk.inj rest
  obtain ⟨types, refused⟩ := Prod.mk.inj rest
  cases made : ((CollectionRequest.tallyBy .one).perform .columnedTallies).result (s.workspace x) with
  | mk answer v =>
  rw [made] at answered table'
  cases answer with
  | error e => cases answered
  | ok reply =>
  obtain rfl := CollectionReply.result?_eq_some answered
  exact ⟨s, x, t, t', v, opened, session, table, texts, made, table', types, StoreError.overflow?_eq_some refused⟩

end Dossier
