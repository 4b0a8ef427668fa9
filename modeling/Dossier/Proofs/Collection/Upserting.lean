import Dossier.Proofs.Collection.Selecting
import Dossier.Proofs.Collection.Touching
import Dossier.Proofs.Store.Separate
import Dossier.Proofs.Update.Pinned

/-!
# Upserts that find what they have inserted

A filter of equalities describes a document (`Filter.Describes`), and the collection `Holds` it if exactly one row is
selected and that row holds all that the filter pins. An upsert that inserts makes this so (`Collection.holds_of_inserted`),
and every later update elsewhere keeps it (`Collection.holds_of_updated`): so upserts with the filter go on to update that one
row (`Collection.repeats_upsertAll`).
-/

namespace Dossier

open Dossier.Action Database Outcome Text

/-- Rows that a predicate takes alike are selected one by one. -/
theorem Table.forall₂_select {S : Row → Row → Prop} {t t' : Table} {p : Predicate} (each : List.Forall₂ S t.rows t'.rows)
    (alike : ∀ r r', S r r' → (p.holds r.read).isTrue = (p.holds r'.read).isTrue) :
    List.Forall₂ S (t.select p) (t'.select p) :=
  List.rel_filter (fun r r' h => by simp only [alike r r' h]) each

/-- A filter of equalities has no pattern, so it fits if the engine takes it. -/
theorem Filter.Describes.fits {f : Filter} {supplied : Option String} (describes : f.Describes supplied) {r : Resolver}
    {db : Database} {name : CollectionName} (takes : db.Takes name (f.predicate r)) : (f.predicate r).Fits := by
  refine ⟨takes.1, fun t mem => ?_⟩
  obtain ⟨clause, there, mem⟩ := List.mem_flatMap.1 mem
  obtain ⟨condition, known, rfl⟩ := List.mem_map.1 mem
  obtain ⟨v, rfl⟩ := describes.equalities clause there condition known
  exact (Condition.params_compareTerm _ .eq v).2

namespace Collection

variable {c : Collection} {db : Database} {t t' : Table} {f : Filter} {u : Update} {supplied : Option String}
  {changes : Changes} {filter change : Json} {result : UpdateResult} {w v : Workspace}

/-! ## A collection by itself -/

/-- All promoted paths are of the collection, and those that it reads are promoted. -/
structure Sole (c : Collection) (db : Database) : Prop where
  numbered : db.Numbered
  separate : db.Separate
  own : ∀ p ∈ db.promotions, p.collection = c.name.text
  resolves : c.resolver.promoted ⊆ (db.resolver c.name.text).promoted

theorem Sole.mirrored (h : c.Sole db) (found : db.table? c.name.text = some t) : ∀ r ∈ t.rows, r.Mirrored c.resolver :=
  fun r mem path promoted => h.separate.mirrored h.own found r mem path (h.resolves promoted)

/-- Statements that write leave the registry as it is. -/
theorem stable_sole (c : Collection) : Database.Stable c.Sole := by
  intro db name r s n after h made
  have same : after.promotions = db.promotions := (run_eq_ok h.separate.1.installed.sound made).2.promotions
  refine ⟨h.numbered.run made, lasting_separate.stable db name r s n after h.separate made, same ▸ h.own, ?_⟩
  have resolver : after.resolver c.name.text = db.resolver c.name.text := by
    rw [Database.resolver, Database.resolver, Database.promotionsOf, Database.promotionsOf, same]
  exact resolver ▸ h.resolves

/-! ## One row -/

/-- Exactly one row is selected by the filter: it has the identifier, and it holds all that the filter pins. -/
def Holds (c : Collection) (f : Filter) (id : String) (db : Database) : Prop :=
  ∃ t row, db.table? c.name.text = some t ∧ t.select (c.predicate f) = [row] ∧ row.id = id
    ∧ row.data.Upholds (Tree.Pinned f.pins)

/-- What an update makes of a body keeps what the update keeps. -/
theorem Makes.keeps {B : Body → Prop} {b b' : Body} (h : c.Makes u b b') (keeps : u.Keeps B) (start : B b) : B b' := by
  cases h with
  | edited placed fine differs text => exact keeps.edits _ (Update.inPlace?_eq_some placed) b b' start text
  | rewritten placed decoded applied changed text => exact keeps.rewrites b _ _ start decoded applied b' text

/-- What an upsert inserts is the one row that the filter selects. -/
theorem Ran.holds_of_inserted {id : String} (ran : c.Ran f (.change changes) .one result t t')
    (inserted : result.upserted = some id) (mirrored : ∀ r ∈ t'.rows, r.Mirrored c.resolver) (describes : f.Describes supplied)
    (clear : f.Clear changes) (distinct : change.tree.Distinct) (accepted : Update.parse change = .ok (.change changes)) :
    (∀ s, supplied = some s → id = s)
      ∧ ∃ row, t'.select (c.predicate f) = [row] ∧ row.id = id ∧ row.data.Upholds (Tree.Pinned f.pins) := by
  obtain ⟨-, cs, kept, added, rows, -, sub, -, -, became, ids, upserts⟩ := ran
  rw [inserted] at ids
  obtain ⟨row, rfl, rfl⟩ := List.map_eq_singleton_iff.1 ids
  obtain ⟨none_, asked, body, made, text, named⟩ := upserts row List.mem_cons_self
  -- the update was about no row, so the others are as they were
  rw [none_, List.sublist_nil, List.map_eq_nil_iff] at sub
  subst sub
  have same : kept = t.rows := by
    have each : List.Forall₂ (fun r r' => r = r') t.rows kept := became.imp fun r r' done =>
      done.elim (fun old => old.1.symm) fun ⟨s, mem, _⟩ => by cases mem
    rw [List.forall₂_eq_eq_eq] at each
    exact each.symm
  have nothing : t.select (c.predicate f) = [] := (List.take_eq_nil_iff.1 none_).resolve_left Nat.one_ne_zero
  obtain ⟨rfl, held⟩ := Update.pinned_of_synthesize describes clear distinct accepted made
  have upheld : row.data.Upholds (Tree.Pinned f.pins) := (Tree.upheld_pinned describes.plain).encodes held _ text
  have selected : ((c.predicate f).holds row.read).isTrue = true :=
    describes.holds (mirrored row (rows ▸ List.mem_append_right _ List.mem_cons_self)) named upheld.tree
  refine ⟨named, row, ?_, rfl, upheld⟩
  have last : [row].filter (fun r => ((c.predicate f).holds r.read).isTrue) = [row] := List.filter_cons_of_pos selected
  rw [Table.select, rows, same, List.filter_append, last]
  exact congrArg (· ++ [row]) nothing

/-- An update of the one row that the filter selects, where the filter pins nothing, leaves it the one. -/
theorem Ran.holds_of_updated {row : Row} (ran : c.Ran f (.change changes) .one result t t') (numbered : t.Numbered)
    (only : t.select (c.predicate f) = [row]) (upheld : row.data.Upholds (Tree.Pinned f.pins))
    (named : ∀ s, supplied = some s → row.id = s) (mirrored : ∀ r ∈ t'.rows, r.Mirrored c.resolver)
    (describes : f.Describes supplied) (clear : f.Clear changes) (distinct : change.tree.Distinct)
    (accepted : Update.parse change = .ok (.change changes)) :
    result.matched = 1 ∧ result.upserted = none
      ∧ ∃ row', t'.select (c.predicate f) = [row'] ∧ row'.id = row.id ∧ row'.data.Upholds (Tree.Pinned f.pins) := by
  obtain ⟨matched, cs, kept, added, rows, -, sub, edited, -, became, ids, upserts⟩ := ran
  have targets : t.targets (c.predicate f) .one = [row] := by rw [Table.targets, only]; rfl
  rw [targets] at matched sub
  obtain rfl : added = [] := List.eq_nil_iff_forall_not_mem.2 fun r mem => by
    have none_ := (upserts r mem).1
    rw [targets] at none_
    cases none_
  rw [List.append_nil] at rows
  obtain ⟨selected, picked⟩ : row ∈ t.rows ∧ ((c.predicate f).holds row.read).isTrue = true :=
    List.mem_filter.1 (only ▸ List.mem_singleton_self row : row ∈ t.select (c.predicate f))
  have firsts : ∀ x ∈ cs, x.1 = row := fun x mem => List.mem_singleton.1 (sub.subset (List.mem_map_of_mem mem))
  have keeps := (Tree.upheld_pinned describes.plain).keeps (clear.upholds distinct accepted)
  -- each row is as it was, or it is the one that is selected and still holds what the filter pins
  have each : List.Forall₂ (fun r r' => (r' = r ∨ r'.id = row.id ∧ r'.data.Upholds (Tree.Pinned f.pins))
      ∧ ((c.predicate f).holds r.read).isTrue = ((c.predicate f).holds r'.read).isTrue) t.rows t'.rows := by
    rw [rows]
    obtain ⟨length, pairs⟩ := List.forall₂_iff_zip.1 became
    refine List.forall₂_iff_zip.2 ⟨length, fun {r r'} mem => ?_⟩
    rcases numbered.became_cases (fun x hx => firsts x hx ▸ selected) edited (List.of_mem_zip mem).1 (pairs mem)
      with ⟨rfl, -⟩ | ⟨s, hs, twin⟩
    · exact ⟨.inl rfl, rfl⟩
    · obtain rfl : r = row := firsts _ hs
      have id : r'.id = r.id := twin.id.trans (edited _ hs).id
      have upheld' : r'.data.Upholds (Tree.Pinned f.pins) := twin.data ▸ (edited _ hs).made.keeps keeps upheld
      have holds := describes.holds (mirrored r' (rows ▸ (List.of_mem_zip mem).2)) (fun s eq => id.trans (named s eq)) upheld'.tree
      exact ⟨.inr ⟨id, upheld'⟩, picked.trans holds.symm⟩
  have both := Table.forall₂_select each fun _ _ h => h.2
  rw [only] at both
  obtain ⟨row', rest, ⟨here, -⟩, none_, eq⟩ := List.forall₂_cons_left_iff.1 both
  cases none_
  refine ⟨matched, Option.toList_eq_nil_iff.1 ids.symm, row', eq, ?_⟩
  rcases here with rfl | ⟨id, upheld'⟩
  · exact ⟨rfl, upheld⟩
  · exact ⟨id, upheld'⟩

/-! ## Upserts -/

/-- The workspace is orderly, and the collection is by itself in it. -/
structure Steady (c : Collection) (w : Workspace) : Prop where
  orderly : w.Orderly
  sole : c.Sole w.current

theorem steady_updateOne (h : c.Steady w) (made : ((c.updateOne filter change true).result w).2 = v) : c.Steady v := by
  have kept : Invariant False c.Sole (c.updateOne filter change true) :=
    (c.plain_updateOne filter change true).invariant c.stable_sole
  obtain ⟨orderly, -, sole⟩ := kept w h.orderly False.elim h.sole
  exact made ▸ ⟨orderly, sole⟩

/-- The update is accepted, repeats no key, and has no path that overlaps one of the filter. -/
def Elsewhere (f : Filter) (change : Json) : Prop :=
  change.tree.Distinct ∧ ∃ changes, Update.parse change = .ok (.change changes) ∧ f.Clear changes

/-- After an upsert that has inserted, the collection holds the document that the filter describes. -/
theorem holds_of_inserted {id : String} (steady : c.Steady w) (parsed : Filter.parse filter = .ok f)
    (describes : f.Describes supplied) (elsewhere : Elsewhere f change)
    (made : (c.updateOne filter change true).result w = (.ok result, v)) (inserted : result.upserted = some id) :
    c.Steady v ∧ (c.predicate f).Fits ∧ c.Holds f id v.current ∧ ∀ s, supplied = some s → id = s := by
  obtain ⟨distinct, changes, accepted, clear⟩ := elsewhere
  have after : c.Steady v := steady_updateOne steady (congrArg Prod.snd made)
  have made : (c.runUpdate f (.change changes) .one true).result w = (_, v) := (result_readUpdate parsed accepted _).symm.trans made
  obtain ⟨⟨t, found⟩, takes⟩ := takes_of_runUpdate steady.orderly made
  obtain ⟨t', found', ran, -⟩ := ran_of_runUpdate steady.orderly steady.sole.numbered found made
  obtain ⟨named, row, selected, same, upheld⟩ :=
    ran.holds_of_inserted inserted (after.sole.mirrored found') describes clear distinct accepted
  exact ⟨after, describes.fits takes, ⟨t', row, found', selected, same, upheld⟩, named⟩

/-- Where the collection holds the document, an upsert fails, or it updates that document. -/
theorem holds_of_updated {id : String} (steady : c.Steady w) (parsed : Filter.parse filter = .ok f)
    (describes : f.Describes supplied) (named : ∀ s, supplied = some s → id = s) (elsewhere : Elsewhere f change)
    (holds : c.Holds f id w.current) {answer : Except StoreError UpdateResult}
    (made : (c.updateOne filter change true).result w = (answer, v)) :
    c.Steady v ∧ c.Holds f id v.current ∧ ∀ result, answer = .ok result → result.matched = 1 ∧ result.upserted = none := by
  obtain ⟨distinct, changes, accepted, clear⟩ := elsewhere
  have after : c.Steady v := steady_updateOne steady (congrArg Prod.snd made)
  cases answer with
  | error e =>
    obtain ⟨-, -, same⟩ := c.atomic_updateOne filter change true w.current w steady.orderly False.elim rfl
    rw [made] at same
    exact ⟨after, same rfl ▸ holds, nofun⟩
  | ok result =>
    obtain ⟨t, row, found, only, rfl, upheld⟩ := holds
    have made : (c.runUpdate f (.change changes) .one true).result w = (_, v) := (result_readUpdate parsed accepted _).symm.trans made
    obtain ⟨t', found', ran, -⟩ := ran_of_runUpdate steady.orderly steady.sole.numbered found made
    obtain ⟨matched, upserted, row', selected, same, upheld'⟩ := ran.holds_of_updated
      (steady.sole.numbered.tables t (mem_of_table? found).1) only upheld named (after.sole.mirrored found') describes clear
      distinct accepted
    refine ⟨after, ⟨t', row', found', selected, same, upheld'⟩, fun other eq => ?_⟩
    cases eq
    exact ⟨matched, upserted⟩

/-- Upserts with a filter one after another: their answers, and what they leave. -/
def upsertAll (c : Collection) (filter : Json) : List Json → Workspace → List (Except StoreError UpdateResult) × Workspace
  | [], w => ([], w)
  | change :: rest, w =>
    let ran := (c.updateOne filter change true).result w
    let later := c.upsertAll filter rest ran.2
    (ran.1 :: later.1, later.2)

/-- Where the collection holds the document, upserts one after another insert nothing. -/
theorem repeats_upsertAll {id : String} (steady : c.Steady w) (parsed : Filter.parse filter = .ok f)
    (describes : f.Describes supplied) (named : ∀ s, supplied = some s → id = s) {updates : List Json}
    (elsewhere : ∀ change ∈ updates, Elsewhere f change) (holds : c.Holds f id w.current) :
    c.Steady (c.upsertAll filter updates w).2 ∧ c.Holds f id (c.upsertAll filter updates w).2.current
      ∧ ∀ result, .ok result ∈ (c.upsertAll filter updates w).1 → result.matched = 1 ∧ result.upserted = none := by
  induction updates generalizing w with
  | nil => exact ⟨steady, holds, nofun⟩
  | cons change rest ih =>
    obtain ⟨here, others⟩ := List.forall_mem_cons.1 elsewhere
    obtain ⟨steady', holds', answered⟩ := holds_of_updated steady parsed describes named here holds rfl
    obtain ⟨left, last, later⟩ := ih steady' others holds'
    refine ⟨left, last, fun result mem => ?_⟩
    rcases List.mem_cons.1 mem with first | mem
    · exact answered result first.symm
    · exact later result mem

end Collection

end Dossier
