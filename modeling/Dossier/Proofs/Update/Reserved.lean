import Dossier.Proofs.Collection.Bodies
import Dossier.Proofs.Json.Decoding
import Dossier.Proofs.Update.Keeping

/-!
# Reserved fields and bodies

`Body.Unreserved`: the body is an object as the store writes it, and no key at its top is a reserved field. Insertions
and replacements check the keys, an operator update checks the heads of its paths, so both write such bodies
(`NewDocument.brings_unreserved`, `Update.keeps_unreserved`). The document that an operator update inserts also has
the fields that the filter pins, and their paths are checked as a whole only: `Update.inserts_unreserved` has to
assume that none begins with a reserved field.
-/

namespace Dossier

open Text Outcome

namespace Fields

/-- No key is a reserved field. -/
def Unreserved (fields : Fields) : Prop := ∀ k ∈ keys fields, isReserved k = false

variable {fields : Fields}

theorem Unreserved.putAt {segments : List String} (free : fields.Unreserved) (ne : segments ≠ [])
    (head : isReserved (segments.head ne) = false) (v : Json) : (putAt v segments fields).Unreserved := by
  have put : ∀ (s : String) (w : Json), isReserved s = false → (fields.put s w).Unreserved := by
    intro s w fine k mem
    rcases mem_keys_put mem with old | rfl
    · exact free k old
    · exact fine
  cases segments with
  | nil => exact absurd rfl ne
  | cons s rest =>
    cases rest with
    | nil => exact put s v head
    | cons t rest =>
      rw [putAt_cons]
      cases fields.inner? s with
      | none => exact free
      | some inner => exact put s _ head

theorem Unreserved.eraseAt (free : fields.Unreserved) (segments : List String) (ne : segments ≠ [])
    (head : isReserved (segments.head ne) = false) : (eraseAt segments fields).Unreserved := by
  cases segments with
  | nil => exact absurd rfl ne
  | cons s rest =>
    cases rest with
    | nil => exact fun k mem => free k (mem_keys_erase mem)
    | cons t rest =>
      rw [Fields.eraseAt]
      · split
        · intro k mem
          rcases mem_keys_put mem with old | rfl
          · exact free k old
          · exact head
        · exact free
      · exact List.cons_ne_nil t rest

theorem Unreserved.setAt {path : FieldPath} {v : Json} {after : Fields} (free : fields.Unreserved)
    (head : isReserved path.head = false) (made : fields.setAt path v = .ok after) : after.Unreserved := by
  rw [Fields.setAt, writeAt_eq _ _ path.nonempty] at made
  split at made
  · cases made
  · cases made
    exact free.putAt path.nonempty head v

end Fields

theorem Step.apply_unreserved {s : Step} {fields after : Fields} (free : fields.Unreserved)
    (head : isReserved s.path.head = false) (made : s.apply fields = .ok after) : after.Unreserved := by
  rw [apply_eq] at made
  split at made
  · cases made
  · cases made
    cases s with
    | unset path => exact free.eraseAt path.segments path.nonempty head
    | set path v | increment path delta => exact free.putAt path.nonempty head _

/-- An accepted update leaves reserved fields out. -/
theorem Update.apply_unreserved {change : Json} {u : Update} (parsed : parse change = .ok u) {fields after : Fields}
    (free : fields.Unreserved) (made : u.apply fields = .ok after) : after.Unreserved := by
  cases u with
  | replace body =>
    cases made
    exact (parse_replace parsed).2
  | change c =>
    exact apply_keeps (fun s mem _ _ free made => Step.apply_unreserved free (parse_heads parsed _ (Changes.path_mem_of_mem_steps mem)) made)
      free made

/-! ## Trees -/

namespace Tree

/-- The tree is an object, and no key at its top is a reserved field. -/
def TopUnreserved (t : Tree) : Prop :=
  ∃ members, t = object members ∧ ∀ m ∈ members, isReserved (stringText m.1) = false

variable {t u : Tree}

theorem TopUnreserved.set {segments : List String} (free : u.TopUnreserved) (ne : segments ≠ [])
    (head : isReserved (segments.head ne) = false) (t : Tree) : (set t segments u).TopUnreserved := by
  obtain ⟨members, rfl, free⟩ := free
  cases segments with
  | nil => exact absurd rfl ne
  | cons key rest =>
    refine ⟨_, rfl, fun m mem => ?_⟩
    rcases mem_setMember mem with old | ⟨child, old, -⟩ | rfl
    · exact free m old
    · exact free (m.1, child) old
    · rw [stringText_escapeString]
      exact head

theorem TopUnreserved.remove (free : u.TopUnreserved) (segments : List String) : (remove segments u).TopUnreserved := by
  obtain ⟨members, rfl, free⟩ := free
  cases segments with
  | nil => exact ⟨members, rfl, free⟩
  | cons key rest =>
    cases rest with
    | nil => exact ⟨_, rfl, fun m mem => free m (mem_eraseMember mem)⟩
    | cons next rest =>
      refine ⟨_, rfl, fun m mem => ?_⟩
      rcases mem_mapMember mem with old | ⟨child, old, -⟩
      · exact free m old
      · exact free (m.1, child) old

theorem TopUnreserved.asRead (free : u.TopUnreserved) : u.asRead.TopUnreserved := by
  obtain ⟨members, rfl, free⟩ := free
  refine ⟨_, rfl, fun m mem => ?_⟩
  rw [membersAsRead_eq] at mem
  obtain ⟨old, there, rfl⟩ := List.mem_map.1 mem
  exact free old there

theorem topUnreserved_tree {fields : Fields} (free : fields.Unreserved) : (Json.object fields).tree.TopUnreserved := by
  refine ⟨_, rfl, fun m mem => ?_⟩
  have keys : ∀ fields : Fields, ∀ m ∈ Json.fieldTrees fields, ∃ k ∈ Fields.keys fields, m.1 = escapeString k := by
    intro fields
    induction fields with
    | nil => intro m mem; cases mem
    | cons f rest ih =>
      intro m mem
      rcases List.mem_cons.1 mem with rfl | later
      · exact ⟨f.1, List.mem_cons_self, rfl⟩
      · obtain ⟨k, hk, eq⟩ := ih m later
        exact ⟨k, List.mem_cons_of_mem _ hk, eq⟩
  obtain ⟨k, hk, eq⟩ := keys fields m mem
  rw [eq, stringText_escapeString]
  exact free k hk

end Tree

theorem Changes.topUnreserved_edit {c : Changes} {body : Tree} (heads : ∀ p ∈ c.paths, isReserved p.head = false)
    (free : body.TopUnreserved) : (c.edit body).TopUnreserved :=
  edit_keeps (fun p _ _ free => free.remove p.segments)
    (fun a mem _ free => free.set a.path.nonempty (heads _ (path_mem_of_mem_assignments mem)) _) free

/-! ## Bodies -/

/-- The body is an object as the store writes it, and no key at its top is a reserved field. -/
structure Body.Unreserved (b : Body) : Prop where
  written : b.tree.IsWritten
  top : b.tree.TopUnreserved

/-- What is written without reserved fields at its top is read so. -/
theorem Body.unreserved_of_text {b : Body} {t : Tree} (written : t.IsWritten) (top : t.TopUnreserved)
    (text : b.text = t.text) : b.Unreserved := by
  have tree := (tree_eq_asRead written text).1
  exact ⟨tree ▸ written.asRead, tree ▸ top.asRead⟩

theorem Fields.Unreserved.encodes {fields : Fields} (free : fields.Unreserved) : fields.Encodes Body.Unreserved :=
  fun _ text => Body.unreserved_of_text (Json.isWritten_tree _) (Tree.topUnreserved_tree free) text

/-- Decoding gives no reserved field, and no key twice. -/
theorem Body.Unreserved.decoded {b : Body} {fields : Fields} (h : b.Unreserved) (decoded : b.decode = .ok fields) :
    fields.Unreserved ∧ (Fields.keys fields).Nodup := by
  obtain ⟨members, tree, read⟩ := Tree.decode?_object (decode_eq_ok decoded)
  obtain ⟨all, same, free⟩ := h.top
  cases tree.symm.trans same
  refine ⟨fun k mem => ?_, Tree.nodup_jsonFields? read List.nodup_nil⟩
  rcases Tree.mem_keys_jsonFields? read mem with none_ | ⟨m, hm, named⟩
  · cases none_
  · rw [← stringText_of_unescape? named]
    exact free m hm

theorem Update.keeps_unreserved {change : Json} {u : Update} (parsed : parse change = .ok u) : u.Keeps Body.Unreserved where
  edits c eq b b' h text := by
    subst eq
    exact Body.unreserved_of_text (Changes.isWritten_edit h.written) (Changes.topUnreserved_edit (parse_heads parsed) h.top) text
  rewrites b fields after h decoded made := (apply_unreserved parsed (h.decoded decoded).1 made).encodes

/-! ## Insertions -/

theorem NewDocument.brings_unreserved (document : Json) : NewDocument.Brings Body.Unreserved document := by
  intro id body made
  obtain ⟨_, -, -, free⟩ := split_eq_ok made
  exact Fields.Unreserved.encodes free

/-- The field is no path that begins with a reserved field. -/
def FieldRef.sparesReserved : FieldRef → Bool
  | .system _ => true
  | .body path => !isReserved path.head

/-- No path that the filter pins begins with a reserved field. -/
def Filter.SparesReserved (f : Filter) : Prop := ∀ e ∈ f.equalities, e.1.field.sparesReserved = true

instance (f : Filter) : Decidable f.SparesReserved := inferInstanceAs (Decidable (∀ e ∈ f.equalities, _))

/-- The document that an update inserts has no reserved field if the filter of an operator update pins none. -/
theorem Update.inserts_unreserved {change : Json} {u : Update} (parsed : parse change = .ok u) {f : Filter}
    (spares : ∀ c, u = .change c → f.SparesReserved) : u.Inserts Body.Unreserved f := by
  intro id body made
  refine Fields.Unreserved.encodes ?_
  cases u with
  | replace replacement =>
    obtain ⟨_, -, applied⟩ := synthesize_keeps (P := fun _ => True) (fun _ _ _ _ _ _ _ _ => trivial) trivial made
    cases applied
    exact (parse_replace parsed).2
  | change c =>
    have pins : ∀ e ∈ f.equalities, ∀ path (fields after : Fields), e.1.field = .body path → fields.Unreserved →
        fields.setAt path e.2 = .ok after → after.Unreserved := by
      intro e mem path fields after field free set
      have spared := spares c rfl e mem
      rw [field, FieldRef.sparesReserved, Bool.not_eq_true'] at spared
      exact free.setAt spared set
    obtain ⟨described, free, applied⟩ := synthesize_keeps pins (by simp [Fields.Unreserved, Fields.keys]) made
    exact apply_unreserved parsed free applied

end Dossier
