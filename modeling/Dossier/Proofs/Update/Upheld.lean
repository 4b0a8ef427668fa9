import Dossier.Proofs.Collection.Bodies
import Dossier.Proofs.Json.Decoding
import Dossier.Proofs.Update.Keeping
import Dossier.Proofs.Update.Mirror

/-!
# What updates uphold

`Tree.Upheld P W R`: the property `P` of trees is kept by the writes at a path that `W` allows and by the removals that `R`
allows, and it is passed on to what a stored text reads as and to what it decodes to. Then all ways in which a request writes
a body keep it, as long as what they write and remove is allowed (`Tree.Upheld.keeps`, `Tree.Upheld.brings`,
`Tree.Upheld.inserts`).
-/

namespace Dossier

open Text Outcome

/-- A property of trees is kept by allowed writes and removals, and reading and decoding pass it on. -/
structure Tree.Upheld (P : Tree → Prop) (W : List String → Tree → Prop) (R : List String → Prop) : Prop where
  set : ∀ {segments v t}, segments ≠ [] → W segments v → P t → P (Tree.set v segments t)
  remove : ∀ {segments t}, R segments → P t → P (Tree.remove segments t)
  asRead : ∀ {t}, P t → P t.asRead
  decoded : ∀ {t j}, P t → t.json? = some j → P j.tree

variable {P : Tree → Prop} {W : List String → Tree → Prop} {R : List String → Prop}

/-! ## Bodies -/

/-- The body is an object as the store writes it, and its tree has the property. -/
structure Body.Upholds (P : Tree → Prop) (b : Body) : Prop where
  written : b.tree.Consists Tree.IsEscaped fun text => Tree.IsNumeral text ∧ text ≠ "null".toList
  object : ∃ members, b.tree = .object members
  tree : P b.tree

/-- The entries make a tree that has the property. -/
def Fields.Upholds (P : Tree → Prop) (fields : Fields) : Prop := P (Json.object fields).tree

theorem Body.Upholds.isWritten {b : Body} (h : b.Upholds P) : b.tree.IsWritten :=
  Tree.Consists.mono (fun _ h => h) (fun _ h => h.1) _ h.written

namespace Tree.Upheld

variable (up : Upheld P W R)

include up

theorem of_text {b : Body} {t : Tree} (written : t.IsWritten) (object : ∃ members, t = .object members) (h : P t)
    (text : b.text = t.text) : b.Upholds P := by
  obtain ⟨members, rfl⟩ := object
  have tree := (Body.tree_eq_asRead written text).1
  exact ⟨tree ▸ Consists.asRead _ written, ⟨_, tree⟩, tree ▸ up.asRead h⟩

theorem encodes {fields : Fields} (h : fields.Upholds P) : fields.Encodes (Body.Upholds P) :=
  fun _ text => up.of_text (Json.isWritten_tree _) ⟨_, rfl⟩ h text

theorem decode {b : Body} (h : b.Upholds P) {fields : Fields} (decoded : b.decode = .ok fields) : fields.Upholds P :=
  up.decoded h.tree (Body.json?_of_decode decoded)

/-! ## Writing at a path -/

theorem putAt {fields : Fields} {segments : List String} {v : Json} (h : fields.Upholds P) (ne : segments ≠ [])
    (allowed : W segments v.tree) : (Fields.putAt v segments fields).Upholds P := by
  rw [Fields.Upholds, ← Json.set_tree v ne]
  exact up.set ne allowed h

theorem eraseAt {fields : Fields} {segments : List String} (h : fields.Upholds P) (ne : segments ≠ [])
    (allowed : R segments) : (Fields.eraseAt segments fields).Upholds P := by
  rw [Fields.Upholds, ← Json.remove_tree ne]
  exact up.remove allowed h

theorem setAt {fields after : Fields} {path : FieldPath} {v : Json} (h : fields.Upholds P)
    (allowed : W path.segments v.tree) (made : fields.setAt path v = .ok after) : after.Upholds P := by
  rw [Fields.setAt, Fields.writeAt_eq _ _ path.nonempty] at made
  split at made
  · cases made
  · cases made
    exact up.putAt h path.nonempty allowed

end Tree.Upheld

/-! ## Updates -/

/-- The changes remove where this is allowed, set what may be written at their paths, and add up where every number may be
written. -/
structure Changes.Upholds (W : List String → Tree → Prop) (R : List String → Prop) (c : Changes) : Prop where
  unset : ∀ p ∈ c.unset, R p.segments
  set : ∀ e ∈ c.set, W e.1.segments e.2.tree
  inc : ∀ e ∈ c.inc, ∀ t : Tree, t.depth = 0 → W e.1.segments t

/-- The update writes what has the property, or changes what may be changed. -/
def Update.Upholds (P : Tree → Prop) (W : List String → Tree → Prop) (R : List String → Prop) : Update → Prop
  | change c => c.Upholds W R
  | replace body => body.Upholds P

/-- What a step does is allowed. -/
def Step.Allowed (W : List String → Tree → Prop) (R : List String → Prop) : Step → Prop
  | unset path => R path.segments
  | set path v => W path.segments v.tree
  | increment path _ => ∀ t : Tree, t.depth = 0 → W path.segments t

theorem Changes.Upholds.step {c : Changes} (h : c.Upholds W R) {s : Step} (mem : s ∈ c.steps) : s.Allowed W R := by
  simp only [Changes.steps, List.mem_append, List.mem_map] at mem
  rcases mem with (⟨p, hp, rfl⟩ | ⟨e, he, rfl⟩) | ⟨e, he, rfl⟩
  · exact h.unset p hp
  · exact h.set e he
  · exact h.inc e he

/-- A sum is a number. -/
theorem Step.depth_sum (origin : Fields) (path : FieldPath) (delta : Number) : (sum origin path delta).tree.depth = 0 := by
  have number : ∀ x : Option Number, ∀ v,
      (x.map Json.number).elim (.error (.overflow path.text)) .ok = (.ok v : Except ApplyError Json) → v.tree.depth = 0 := by
    intro x v made
    cases x with
    | none => cases made
    | some n => cases made; rfl
  unfold sum
  split
  · rename_i v made
    unfold incremented at made
    split at made
    · exact number _ v made
    · exact number _ v made
    · cases made
  · rfl

theorem Tree.depth_ofValue (v : Value) : (ofValue v).depth = 0 := by
  cases v with
  | real x =>
    rw [ofValue]
    split <;> rfl
  | null | integer | text => rfl

namespace Tree.Upheld

variable (up : Upheld P W R)

include up

theorem step {s : Step} (allowed : s.Allowed W R) {fields after : Fields} (h : fields.Upholds P)
    (made : s.apply fields = .ok after) : after.Upholds P := by
  rw [Step.apply_eq] at made
  split at made
  · cases made
  · cases made
    cases s with
    | unset path => exact up.eraseAt h path.nonempty allowed
    | set path v => exact up.putAt h path.nonempty allowed
    | increment path delta => exact up.putAt h path.nonempty (allowed _ (Step.depth_sum ..))

theorem apply {u : Update} (h : u.Upholds P W R) {fields after : Fields} (start : fields.Upholds P)
    (made : u.apply fields = .ok after) : after.Upholds P := by
  cases u with
  | replace body =>
    cases made
    exact h
  | change c => exact Update.apply_keeps (fun s mem _ _ kept made => up.step (h.step mem) kept made) start made

/-- An edit of an object in place is an object again. -/
theorem edit {c : Changes} (h : c.Upholds W R) {body : Tree} (object : ∃ members, body = .object members) (start : P body) :
    (∃ members, c.edit body = .object members) ∧ P (c.edit body) := by
  refine Changes.edit_keeps (P := fun t => (∃ members, t = .object members) ∧ P t)
    (fun p mem t kept => ⟨?_, up.remove (h.unset p mem) kept.2⟩) (fun a mem t kept => ?_) ⟨object, start⟩
  · obtain ⟨⟨members, rfl⟩, -⟩ := kept
    exact Tree.exists_remove_object p.segments members
  · obtain ⟨⟨members, rfl⟩, kept⟩ := kept
    refine ⟨Tree.exists_set_object _ a.path.nonempty members, up.set a.path.nonempty ?_ kept⟩
    simp only [Changes.assignments, List.mem_append, List.mem_map] at mem
    rcases mem with ⟨e, he, rfl⟩ | ⟨e, he, rfl⟩
    · exact h.set e he
    · exact h.inc e he _ (Tree.depth_ofValue _)

theorem keeps {u : Update} (h : u.Upholds P W R) : u.Keeps (Body.Upholds P) where
  edits c eq b b' upheld text := by
    subst eq
    obtain ⟨object, tree⟩ := up.edit h upheld.object upheld.tree
    exact up.of_text (Changes.isWritten_edit upheld.isWritten) object tree text
  rewrites _ _ _ upheld decoded made := up.encodes (up.apply h (up.decode upheld decoded) made)

/-! ## Insertions -/

/-- The body of a document has the property if the document has it and its identifier may be taken out. -/
theorem brings {document : Json} (h : P document.tree) (allowed : ∀ key ∈ idFields, R [key]) :
    NewDocument.Brings (Body.Upholds P) document := by
  intro id body made
  obtain ⟨fields, rfl, rfl, -⟩ := NewDocument.split_eq_ok made
  have erased : (NewDocument.bodyOf fields).Upholds P :=
    List.foldlRecOn idFields _ (motive := Fields.Upholds P) h
      fun fields kept key mem => up.eraseAt kept (List.cons_ne_nil key []) (allowed key mem)
  exact up.encodes erased

/-- What the update inserts has the property if the filter of an operator update pins what may be written where it is. -/
theorem inserts {u : Update} (h : u.Upholds P W R) (empty : Fields.Upholds P []) {f : Filter}
    (pinned : ∀ c, u = .change c → ∀ e ∈ f.equalities, ∀ path, e.1.field = .body path → W path.segments e.2.tree) :
    u.Inserts (Body.Upholds P) f := by
  intro id body made
  cases u with
  | replace replacement =>
    obtain ⟨_, -, applied⟩ := Update.synthesize_keeps (P := fun _ => True) (fun _ _ _ _ _ _ _ _ => trivial) trivial made
    cases applied
    exact up.encodes h
  | change c =>
    have pins : ∀ e ∈ f.equalities, ∀ path (fields after : Fields), e.1.field = .body path → fields.Upholds P →
        fields.setAt path e.2 = .ok after → after.Upholds P :=
      fun e mem path fields after field kept set => up.setAt kept (pinned c rfl e mem path field) set
    obtain ⟨described, kept, applied⟩ := Update.synthesize_keeps pins empty made
    exact up.encodes (up.apply h kept applied)

end Tree.Upheld

end Dossier
