import Dossier.Proofs.Json.Writing
import Dossier.Proofs.Update.Place

/-!
# Places of a body and of its tree

The engine works on the tree of a body where the store works on its entries. At a path that is not empty the
two do the same: looking up (`Json.lookup?_tree`), writing (`Json.set_tree`) and removing
(`Json.remove_tree`).
-/

namespace Dossier

open Dossier.Tree

/-! ## Members and entries -/

theorem member?_fieldTrees (key : String) (fields : Fields) :
    member? key (Json.fieldTrees fields) = (fields.get? key).map Json.tree := by
  induction fields with
  | nil => rfl
  | cons f rest ih =>
    obtain ⟨k, v⟩ := f
    by_cases h : k = key <;> simp [Json.fieldTrees, member?, Fields.get?, stringText_escapeString, h, ih]

theorem eraseMember_fieldTrees (key : String) (fields : Fields) :
    eraseMember key (Json.fieldTrees fields) = Json.fieldTrees (fields.erase key) := by
  induction fields with
  | nil => rfl
  | cons f rest ih =>
    obtain ⟨k, v⟩ := f
    by_cases h : k = key <;> simp [Json.fieldTrees, eraseMember, Fields.erase, stringText_escapeString, h, ih]

/-- Changing a member changes the entry, if there is one. -/
theorem mapMember_fieldTrees {f : Tree → Tree} {key : String} {fields : Fields} {v w : Json}
    (found : fields.get? key = some v) (h : f v.tree = w.tree) :
    mapMember f key (Json.fieldTrees fields) = Json.fieldTrees (fields.put key w) := by
  induction fields with
  | nil => simp at found
  | cons e rest ih =>
    obtain ⟨k, u⟩ := e
    by_cases hk : k = key
    · obtain rfl : u = v := by simpa [Fields.get?, hk] using found
      simp [Json.fieldTrees, mapMember, Fields.put, stringText_escapeString, hk, h]
    · simp [Json.fieldTrees, mapMember, Fields.put, stringText_escapeString, hk,
        ih (by simpa [Fields.get?, hk] using found)]

theorem mapMember_fieldTrees_none {f : Tree → Tree} {key : String} {fields : Fields}
    (absent : fields.get? key = none) : mapMember f key (Json.fieldTrees fields) = Json.fieldTrees fields := by
  induction fields with
  | nil => rfl
  | cons e rest ih =>
    obtain ⟨k, u⟩ := e
    by_cases hk : k = key
    · simp [Fields.get?, hk] at absent
    · simp [Json.fieldTrees, mapMember, stringText_escapeString, hk, ih (by simpa [Fields.get?, hk] using absent)]

/-- Writing below a member writes the entry that the member becomes. -/
theorem setMember_fieldTrees (t : Tree) (key : String) (rest : List String) {w : Json} {fields : Fields}
    (new : fields.get? key = none → nest rest t = w.tree)
    (old : ∀ v, fields.get? key = some v → set t rest v.tree = w.tree) :
    setMember t key rest (Json.fieldTrees fields) = Json.fieldTrees (fields.put key w) := by
  induction fields with
  | nil => simp [Json.fieldTrees, setMember, Fields.put, new rfl]
  | cons e others ih =>
    obtain ⟨k, u⟩ := e
    by_cases hk : k = key
    · have := old u (by simp [Fields.get?, hk])
      simp [Json.fieldTrees, setMember, Fields.put, stringText_escapeString, hk, this]
    · have get : Fields.get? ((k, u) :: others) key = Fields.get? others key := by simp [Fields.get?, hk]
      simp [Json.fieldTrees, setMember, Fields.put, stringText_escapeString, hk, ih (get ▸ new) (get ▸ old)]

/-- Writing what stands under a key already changes nothing. -/
theorem Fields.put_get? {fields : Fields} {key : String} {v : Json} (h : fields.get? key = some v) :
    fields.put key v = fields := by
  induction fields with
  | nil => simp at h
  | cons f rest ih =>
    obtain ⟨k, u⟩ := f
    by_cases hk : k = key
    · obtain rfl : u = v := by simpa [Fields.get?, hk] using h
      simp [Fields.put, hk]
    · simp [Fields.put, hk, ih (by simpa [Fields.get?, hk] using h)]

/-! ## Paths -/

/-- The value is an object. -/
def Json.isObject : Json → Bool
  | .object _ => true
  | _ => false

namespace Json

theorem child?_tree (key : String) (fields : Fields) :
    (object fields).tree.child? key = (fields.get? key).map tree := member?_fieldTrees key fields

theorem child?_tree_of_not_object (key : String) {j : Json} (h : j.isObject = false) : j.tree.child? key = none := by
  cases j <;> first | rfl | simp [isObject] at h

theorem set_tree_of_not_object (t : Tree) (key : String) (rest : List String) {j : Json} (h : j.isObject = false) :
    Tree.set t (key :: rest) j.tree = j.tree := by
  cases j <;> first | rfl | simp [isObject] at h

theorem remove_tree_of_not_object (keys : List String) {j : Json} (h : j.isObject = false) :
    Tree.remove keys j.tree = j.tree := by
  cases j with
  | object fields => simp [isObject] at h
  | null | bool | number | string | array => simp [tree, Tree.remove]

/-- A nest of objects is what a write into an empty body makes. -/
theorem nest_tree (v : Json) (key : String) (rest : List String) :
    nest (key :: rest) v.tree = (object (Fields.putAt v (key :: rest) [])).tree := by
  induction rest generalizing key with
  | nil => rfl
  | cons next rest ih => rw [nest, ih, Fields.putAt_cons]; rfl

/-- The engine looks up what stands at a path of the body. -/
theorem lookup?_tree {segments : List String} (ne : segments ≠ []) (fields : Fields) :
    (object fields).tree.lookup? segments = (fields.getAt? segments).map tree := by
  match segments with
  | [] => exact absurd rfl ne
  | [leaf] => rw [lookup?, child?_tree, Fields.getAt?]; cases fields.get? leaf <;> rfl
  | s :: t :: rest =>
    rw [lookup?, child?_tree, Fields.getAt?_cons, Fields.inner?]
    cases fields.get? s with
    | none => simp [Fields.getAt?_nil_fields]
    | some j =>
      by_cases inside : j.isObject = true
      · obtain ⟨inner, rfl⟩ : ∃ inner, j = object inner := by cases j <;> simp_all [isObject]
        simpa using lookup?_tree (List.cons_ne_nil t rest) inner
      · have none := child?_tree_of_not_object t (Bool.eq_false_iff.2 inside)
        cases j <;> simp_all [lookup?, isObject]

/-- The engine writes what a write into the body writes. -/
theorem set_tree (v : Json) {segments : List String} (ne : segments ≠ []) (fields : Fields) :
    Tree.set v.tree segments (object fields).tree = (object (fields.putAt v segments)).tree := by
  match segments with
  | [] => exact absurd rfl ne
  | [leaf] =>
    rw [tree, Tree.set, Fields.putAt, setMember_fieldTrees v.tree leaf [] (w := v) (fun _ => rfl) (fun _ _ => by rw [Tree.set]), tree]
  | s :: t :: rest =>
    rw [tree, Tree.set, Fields.putAt_cons, Fields.inner?]
    cases found : fields.get? s with
    | none => simpa [tree] using setMember_fieldTrees v.tree s (t :: rest) (fun _ => nest_tree v t rest) (by simp [found])
    | some j =>
      by_cases inside : j.isObject = true
      · obtain ⟨inner, rfl⟩ : ∃ inner, j = object inner := by cases j <;> simp_all [isObject]
        have below := set_tree v (List.cons_ne_nil t rest) inner
        simpa [tree] using setMember_fieldTrees v.tree s (t :: rest) (by simp [found]) (by simpa [found] using below)
      · have stays := set_tree_of_not_object v.tree t rest (Bool.eq_false_iff.2 inside)
        have same := setMember_fieldTrees v.tree s (t :: rest) (w := j)
          (show fields.get? s = none → _ by simp [found]) (by simpa [found] using stays)
        rw [Fields.put_get? found] at same
        cases j <;> simp_all [tree, isObject]

/-- The engine removes what a removal from the body removes. -/
theorem remove_tree {segments : List String} (ne : segments ≠ []) (fields : Fields) :
    Tree.remove segments (object fields).tree = (object (fields.eraseAt segments)).tree := by
  match segments with
  | [] => exact absurd rfl ne
  | [leaf] => simp [tree, Tree.remove, Fields.eraseAt, eraseMember_fieldTrees]
  | s :: t :: rest =>
    rw [tree, Tree.remove, Fields.eraseAt]
    · cases found : fields.get? s with
      | none => simp [mapMember_fieldTrees_none found, tree]
      | some j =>
        by_cases inside : j.isObject = true
        · obtain ⟨inner, rfl⟩ : ∃ inner, j = object inner := by cases j <;> simp_all [isObject]
          simp [tree, mapMember_fieldTrees found (remove_tree (List.cons_ne_nil t rest) inner)]
        · have same := mapMember_fieldTrees found
            (remove_tree_of_not_object (t :: rest) (Bool.eq_false_iff.2 inside))
          rw [Fields.put_get? found] at same
          cases j <;> simp_all [tree, isObject]
    · simp
    · simp

end Json

end Dossier
