import Dossier.Proofs.Database.Reading
import Dossier.Proofs.Json.Lookup
import Dossier.Proofs.Sql.Extracted
import Dossier.Proofs.Update.Distinct

/-!
# What a filter pins

A filter of equalities describes a document: `Filter.Describes`. The document that an upsert makes of it holds every pinned
value at its path (`Update.pinned_of_synthesize`), updates elsewhere keep it there (`Tree.upheld_pinned`), and a row that
holds all of them is one that the filter selects (`Filter.Describes.holds`).
-/

namespace Dossier

open Outcome

namespace Filter

/-- The body path that an equality pins, and the value. -/
def pin? (e : Clause × Json) : Option (FieldPath × Json) :=
  match e.1.field with
  | .body path => some (path, e.2)
  | .system _ => none

/-- The identifier that an equality asks for. -/
def identifier? (e : Clause × Json) : Option Json :=
  match e.1.field with
  | .system .id => some e.2
  | _ => none

/-- What the filter pins in a body. -/
def pins (f : Filter) : List (FieldPath × Json) := f.equalities.filterMap pin?

/-- The filter consists of equalities: values without doubles at body paths that do not overlap, and at most one text that is
the identifier. -/
structure Describes (f : Filter) (supplied : Option String) : Prop where
  equalities : ∀ clause ∈ f.clauses, ∀ condition ∈ clause.conditions, ∃ v, condition = .compare .eq v
  fields : ∀ clause ∈ f.clauses, clause.field = .system .id ∨ ∃ path, clause.field = .body path
  apart : f.pins.Pairwise fun e e' => e.1.overlaps e'.1 = false
  plain : ∀ e ∈ f.pins, e.2.isPlain = true
  identifier : f.equalities.filterMap identifier? = supplied.toList.map Json.string

/-- The changes are at paths that overlap no pinned one. -/
def Clear (f : Filter) (c : Changes) : Prop := ∀ p ∈ c.paths, ∀ e ∈ f.pins, p.overlaps e.1 = false

instance (f : Filter) (c : Changes) : Decidable (f.Clear c) :=
  inferInstanceAs (Decidable (∀ p ∈ c.paths, ∀ e ∈ f.pins, p.overlaps e.1 = false))

end Filter

namespace Tree

variable {pins : List (FieldPath × Json)} {t : Tree}

/-- The values stand at their paths, and no object repeats a key. -/
structure Pinned (pins : List (FieldPath × Json)) (t : Tree) : Prop where
  distinct : t.Distinct
  held : ∀ e ∈ pins, t.lookup? e.1.segments = some e.2.tree

/-- The path is apart from all pinned ones. -/
def Spares (pins : List (FieldPath × Json)) (segments : List String) : Prop := ∀ e ∈ pins, Apart segments e.1.segments

/-- Pinned values stay through changes elsewhere. -/
theorem upheld_pinned (plain : ∀ e ∈ pins, e.2.isPlain = true) :
    Upheld (Pinned pins) (fun segments t => t.Distinct ∧ Spares pins segments) (Spares pins) where
  set _ allowed h :=
    ⟨isDistinct_set allowed.1 _ h.distinct, fun e mem => lookup?_set (allowed.2 e mem) _ (h.held e mem)⟩
  remove allowed h := ⟨isDistinct_remove _ h.distinct, fun e mem => lookup?_remove (allowed e mem) (h.held e mem)⟩
  asRead h := by
    refine ⟨isDistinct_asRead _ h.distinct, fun e mem => ?_⟩
    rw [lookup?_asRead (h.held e mem), Json.asRead_tree (plain e mem)]
  decoded h read := by
    refine ⟨isDistinct_of_json? _ read, fun e mem => ?_⟩
    obtain ⟨v, value, there⟩ := lookup?_of_decoded h.distinct read (h.held e mem)
    obtain rfl := Option.some.inj ((Json.json?_tree _ (plain e mem)).symm.trans value)
    exact there

end Tree

/-! ## Updates -/

variable {f : Filter} {supplied : Option String} {c : Changes}

/-- Changes at other paths keep what is pinned. -/
theorem Filter.Clear.upholds {change : Json} (clear : f.Clear c) (distinct : change.tree.Distinct)
    (parsed : Update.parse change = .ok (.change c)) : (Update.change c).Upholds (Tree.Pinned f.pins)
      (fun segments t => t.Distinct ∧ Tree.Spares f.pins segments) (Tree.Spares f.pins) := by
  have kept : c.Upholds (fun _ t => t.Distinct) fun _ => True := Update.upholds_distinct distinct parsed
  have spares : ∀ p ∈ c.paths, Tree.Spares f.pins p.segments := fun p mem e there =>
    FieldPath.apart_of_overlaps (clear p mem e there)
  simp only [Changes.paths, List.mem_append, List.mem_map] at spares
  exact ⟨fun p mem => spares p (.inl (.inr mem)), fun e mem => ⟨kept.set e mem, spares _ (.inl (.inl ⟨e, mem, rfl⟩))⟩,
    fun e mem t flat => ⟨kept.inc e mem t flat, spares _ (.inr ⟨e, mem, rfl⟩)⟩⟩

/-! ## Insertions -/

/-- A value that has been written at a path apart from the pinned ones is pinned too. -/
theorem Fields.pinned_of_setAt {pins : List (FieldPath × Json)} {fields after : Fields} {path : FieldPath} {v : Json}
    (plain : ∀ e ∈ pins, e.2.isPlain = true) (here : v.isPlain = true) (spares : Tree.Spares pins path.segments)
    (h : fields.Upholds (Tree.Pinned pins)) (made : fields.setAt path v = .ok after) :
    after.Upholds (Tree.Pinned (pins ++ [(path, v)])) := by
  have kept := (Tree.upheld_pinned plain).setAt h ⟨Json.isDistinct_tree here, spares⟩ made
  refine ⟨kept.distinct, List.forall_mem_append.2 ⟨kept.held, List.forall_mem_singleton.2 ?_⟩⟩
  rw [setAt, writeAt_eq _ _ path.nonempty] at made
  split at made
  · cases made
  · rename_i free
    cases made
    rw [Json.lookup?_tree path.nonempty, getAt?_putAt_self v path.nonempty free]
    rfl

/-- An equality writes a value into the body, or names the identifier, or does nothing. -/
theorem Update.pin_eq_ok {acc acc' : Option String × Fields} {e : Clause × Json} (made : pin acc e = .ok acc') :
    (∃ path body, e.1.field = .body path ∧ acc.2.setAt path e.2 = .ok body ∧ acc' = (acc.1, body))
      ∨ (∃ id, e.1.field = .system .id ∧ identifierOf e.2 = .ok id ∧ acc' = (some id, acc.2))
      ∨ ∃ column, e.1.field = .system column ∧ column ≠ .id ∧ acc' = acc := by
  unfold pin at made
  split at made
  · rename_i field
    obtain ⟨id, known, eq⟩ := bind_eq_ok.1 made
    cases eq
    exact .inr (.inl ⟨id, field, known, rfl⟩)
  · rename_i path field
    split at made
    · rename_i body set
      cases made
      exact .inl ⟨path, body, field, set, rfl⟩
    · cases made
  · rename_i column other field
    cases made
    exact .inr (.inr ⟨column, field, other, rfl⟩)

/-- The equalities that an upsert writes one after another are all pinned then. -/
theorem Update.pinned_of_foldlM {es : List (Clause × Json)} {before : List (FieldPath × Json)}
    {acc after : Option String × Fields} (start : acc.2.Upholds (Tree.Pinned before))
    (plain : ∀ e ∈ before ++ es.filterMap Filter.pin?, e.2.isPlain = true)
    (apart : (before ++ es.filterMap Filter.pin?).Pairwise fun e e' => e.1.overlaps e'.1 = false)
    (made : es.foldlM pin acc = .ok after) : after.2.Upholds (Tree.Pinned (before ++ es.filterMap Filter.pin?)) := by
  induction es generalizing before acc with
  | nil =>
    cases made
    rw [List.filterMap_nil, List.append_nil]
    exact start
  | cons e rest ih =>
    rw [List.foldlM_cons] at made
    obtain ⟨next, first, later⟩ := bind_eq_ok.1 made
    have skip : ∀ column, e.1.field = .system column → next.2 = acc.2 →
        after.2.Upholds (Tree.Pinned (before ++ (e :: rest).filterMap Filter.pin?)) := by
      intro column field same
      have skipped : Filter.pin? e = none := by rw [Filter.pin?, field]
      rw [List.filterMap_cons_none skipped] at plain apart ⊢
      exact ih (same ▸ start) plain apart later
    rcases pin_eq_ok first with ⟨path, body, field, set, rfl⟩ | ⟨id, field, -, rfl⟩ | ⟨column, field, -, rfl⟩
    · have pinned : Filter.pin? e = some (path, e.2) := by rw [Filter.pin?, field]
      rw [List.filterMap_cons_some pinned, List.append_cons] at plain apart ⊢
      obtain ⟨old, here⟩ := List.forall_mem_append.1 (List.forall_mem_append.1 plain).1
      have spares : Tree.Spares before path.segments := fun other mem =>
        (FieldPath.apart_of_overlaps ((List.pairwise_append.1 (List.pairwise_append.1 apart).1).2.2 other mem _
          List.mem_cons_self)).symm
      exact ih (Fields.pinned_of_setAt old (here _ List.mem_cons_self) spares start set) plain apart later
    · exact skip _ field rfl
    · exact skip _ field rfl

/-- The identifier is the one that the equalities ask for, or the one there was. -/
theorem Update.identifier_of_foldlM {es : List (Clause × Json)} {acc after : Option String × Fields}
    (identifier : es.filterMap Filter.identifier? = supplied.toList.map Json.string) (made : es.foldlM pin acc = .ok after) :
    after.1 = supplied.or acc.1 := by
  induction es generalizing supplied acc with
  | nil =>
    cases made
    cases supplied with
    | none => rfl
    | some s => cases identifier
  | cons e rest ih =>
    rw [List.foldlM_cons] at made
    obtain ⟨next, first, later⟩ := bind_eq_ok.1 made
    have skip : Filter.identifier? e = none → next.1 = acc.1 → after.1 = supplied.or acc.1 := by
      intro skipped same
      rw [List.filterMap_cons_none skipped] at identifier
      exact same ▸ ih identifier later
    rcases pin_eq_ok first with ⟨path, body, field, -, rfl⟩ | ⟨id, field, known, rfl⟩ | ⟨column, field, other, rfl⟩
    · exact skip (by rw [Filter.identifier?, field]) rfl
    · have asked : Filter.identifier? e = some e.2 := by rw [Filter.identifier?, field]
      rw [List.filterMap_cons_some asked] at identifier
      cases supplied with
      | none => cases identifier
      | some s =>
        obtain ⟨here, others⟩ := List.cons.inj identifier
        rw [here, identifierOf] at known
        split at known
        · cases known
        · cases known
          have none_ : rest.filterMap Filter.identifier? = (none : Option String).toList.map Json.string := others
          have last := ih none_ later
          exact last
    · exact skip (by cases column <;> first | exact absurd rfl other | rw [Filter.identifier?, field]) rfl

/-- What an upsert inserts holds all that the filter pins, under the identifier that it asks for. -/
theorem Update.pinned_of_synthesize (describes : f.Describes supplied) (clear : f.Clear c) {change : Json}
    (distinct : change.tree.Distinct) (parsed : parse change = .ok (.change c)) {id : Option String} {body : Fields}
    (made : (Update.change c).synthesize f = .ok (id, body)) : id = supplied ∧ body.Upholds (Tree.Pinned f.pins) := by
  obtain ⟨⟨found, described⟩, pinned, made⟩ := bind_eq_ok.1 made
  have start : Fields.Upholds (Tree.Pinned []) [] := ⟨rfl, by simp⟩
  have held : described.Upholds (Tree.Pinned f.pins) := pinned_of_foldlM start describes.plain describes.apart pinned
  have asked : found = supplied.or none := identifier_of_foldlM describes.identifier pinned
  simp only at made
  split at made
  · rename_i applied
    cases made
    exact ⟨asked.trans (Option.or_none ..), (Tree.upheld_pinned describes.plain).apply (clear.upholds distinct parsed) held applied⟩
  · cases made

/-! ## Selecting -/

theorem Predicate.holds_of_forall {read : Operand → Value} {p : Predicate} (each : ∀ x ∈ p, x.holds read = some true) :
    p.holds read = some true := by
  unfold Predicate.holds
  induction p with
  | nil => rfl
  | cons x rest ih =>
    obtain ⟨here, others⟩ := List.forall_mem_cons.1 each
    rw [List.map_cons, Truth.all, List.foldr_cons, here]
    exact congrArg (Truth.and (some true)) (ih others)

/-- A row that holds all that the filter pins is one that the filter selects. -/
theorem Filter.Describes.holds (describes : f.Describes supplied) {row : Row} {resolver : Resolver}
    (mirrored : row.Mirrored resolver) (id : ∀ s, supplied = some s → row.id = s) (pinned : row.data.tree.Pinned f.pins) :
    ((f.predicate resolver).holds row.read).isTrue = true := by
  rw [Predicate.holds_of_forall]
  · rfl
  intro x mem
  obtain ⟨clause, there, mem⟩ := List.mem_flatMap.1 mem
  obtain ⟨condition, known, rfl⟩ := List.mem_map.1 mem
  obtain ⟨v, rfl⟩ := describes.equalities clause there condition known
  have equality : (clause, v) ∈ f.equalities := mem_equalities_iff.2 ⟨there, known⟩
  refine Condition.holds_equality ?_
  rcases describes.fields clause there with field | ⟨path, field⟩
  · have asked : v ∈ f.equalities.filterMap identifier? := List.mem_filterMap.2 ⟨_, equality, by rw [identifier?, field]⟩
    rw [describes.identifier] at asked
    obtain ⟨s, named, rfl⟩ := List.mem_map.1 asked
    rw [field]
    exact congrArg Value.text (id s (Option.mem_toList.1 named))
  · have pin : (path, v) ∈ f.pins := List.mem_filterMap.2 ⟨_, equality, by rw [pin?, field]⟩
    rw [field, mirrored.read_body, Body.extract, pinned.held _ pin]
    exact Json.value_tree (describes.plain _ pin)

end Dossier
