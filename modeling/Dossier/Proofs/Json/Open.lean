import Dossier.Proofs.Json.Lookup

/-!
# Where nothing stands in the way

`Tree.Open`: on the way to a path stand only objects, as far as anything stands there. Then what is written at the path is found
there (`Tree.lookup?_set_self`), and writes and removals at paths apart from it leave the way open (`Tree.Open.set`,
`Tree.Open.remove`).
-/

namespace Dossier

open Text

namespace Tree

variable {key : String} {p q rest : List String} {t u : Tree} {members : List (List Char × Tree)}

/-- On the way to the end of a list of keys stand only objects, as far as anything stands there. -/
def Open : List String → Tree → Prop
  | [], _ => True
  | key :: rest, t => (∃ members, t = object members) ∧ ∀ child, t.child? key = some child → Open rest child

theorem lookup?_nest (path : List String) (t : Tree) : (nest path t).lookup? path = some t := by
  induction path with
  | nil => rfl
  | cons key rest ih =>
    rw [nest, lookup?, child?, member?, if_pos (stringText_escapeString key), Option.bind_some]
    exact ih

theorem member?_setMember_new (t : Tree) (rest : List String) (absent : member? key members = none) :
    member? key (setMember t key rest members) = some (nest rest t) := by
  induction members with
  | nil => rw [setMember, member?, if_pos (stringText_escapeString key)]
  | cons m others ih =>
    obtain ⟨raw, child⟩ := m
    rw [member?] at absent
    split at absent
    · cases absent
    · rename_i there
      rw [setMember, if_neg there, member?, if_neg there]
      exact ih absent

/-- What is written where nothing stands in the way is found there. -/
theorem lookup?_set_self (t : Tree) (h : u.Open p) : (set t p u).lookup? p = some t := by
  induction p generalizing u with
  | nil => rw [set, lookup?]
  | cons key rest ih =>
    obtain ⟨⟨members, rfl⟩, below⟩ := h
    rw [set, lookup?, child?]
    cases found : member? key members with
    | none => rw [member?_setMember_new t rest found, Option.bind_some, lookup?_nest]
    | some child => rw [member?_setMember_self t rest found, Option.bind_some, ih (below child found)]

/-- On the way to a path apart from its own a nest of objects has nothing but objects. -/
theorem open_nest {p q : List String} (apart : Apart p q) (t : Tree) : (nest p t).Open q := by
  match p, q with
  | [], _ => exact absurd rfl apart.ne_nil.1
  | _ :: _, [] => exact absurd rfl apart.ne_nil.2
  | a :: p, b :: q =>
    refine ⟨⟨_, rfl⟩, fun child found => ?_⟩
    rw [nest, child?, member?, stringText_escapeString] at found
    split at found
    · rename_i same
      cases found
      rcases apart.cases_cons with ne | ⟨-, a', p', b', q', rfl, rfl, apart'⟩
      · exact absurd same ne
      · exact open_nest apart' t
    · cases found

/-- A write at a path apart leaves the way open. -/
theorem Open.set {p q : List String} (apart : Apart p q) (t : Tree) {u : Tree} (h : u.Open q) : (set t p u).Open q := by
  match p, q with
  | [], _ => exact absurd rfl apart.ne_nil.1
  | _ :: _, [] => exact absurd rfl apart.ne_nil.2
  | a :: p, b :: q =>
    obtain ⟨⟨members, rfl⟩, below⟩ := h
    refine ⟨⟨_, rfl⟩, fun child found => ?_⟩
    rw [Tree.set, child?] at found
    rcases apart.cases_cons with ne | ⟨rfl, a', p', b', q', rfl, rfl, apart'⟩
    · rw [member?_setMember t a p ne] at found
      exact below child found
    · cases there : member? a members with
      | none =>
        rw [member?_setMember_new t (a' :: p') there] at found
        cases found
        exact open_nest apart' t
      | some old =>
        rw [member?_setMember_self t (a' :: p') there] at found
        cases found
        exact Open.set apart' t (below old there)

/-- A removal at a path apart leaves the way open. -/
theorem Open.remove {p q : List String} (apart : Apart p q) {u : Tree} (h : u.Open q) : (remove p u).Open q := by
  match p, q with
  | [], _ => exact absurd rfl apart.ne_nil.1
  | _ :: _, [] => exact absurd rfl apart.ne_nil.2
  | a :: p, b :: q =>
    obtain ⟨⟨members, rfl⟩, below⟩ := h
    rcases apart.cases_cons with ne | ⟨rfl, a', p', b', q', rfl, rfl, apart'⟩
    · cases p with
      | nil =>
        refine ⟨⟨_, rfl⟩, fun child found => ?_⟩
        rw [Tree.remove, child?, member?_eraseMember ne] at found
        exact below child found
      | cons a' p' =>
        rw [Tree.remove]
        · refine ⟨⟨_, rfl⟩, fun child found => ?_⟩
          rw [child?, member?_mapMember ne] at found
          exact below child found
        · simp
    · rw [Tree.remove]
      · refine ⟨⟨_, rfl⟩, fun child found => ?_⟩
        rw [child?, member?_mapMember_self] at found
        obtain ⟨old, there, rfl⟩ := Option.map_eq_some_iff.1 found
        exact Open.remove apart' (below old there)
      · simp

theorem exists_object_of_typeName {t : Tree} (h : t.typeName = "object") : ∃ members, t = object members := by
  cases t with
  | object members => exact ⟨members, rfl⟩
  | bool b => cases b <;> simp [typeName] at h
  | number text =>
    rw [typeName] at h
    split at h <;> simp at h
  | null | string | array => simp [typeName] at h

/-- The way is open if what stands at the beginnings of the path is an object. -/
theorem open_of_beginnings (object : ∃ members, t = object members)
    (beginnings : ∀ i < p.length - 1, ∀ sub, t.lookup? (p.take (i + 1)) = some sub → ∃ members, sub = .object members) :
    t.Open p := by
  induction p generalizing t with
  | nil => trivial
  | cons key rest ih =>
    refine ⟨object, fun child found => ?_⟩
    cases rest with
    | nil => trivial
    | cons next rest =>
      have step (i : Nat) : t.lookup? ((key :: next :: rest).take (i + 1)) = child.lookup? ((next :: rest).take i) := by
        rw [List.take_succ_cons, lookup?, found, Option.bind_some]
      refine ih (beginnings 0 (by simp) child (step 0)) fun i bound sub there => ?_
      exact beginnings (i + 1) (by simpa using bound) sub ((step (i + 1)).trans there)

/-- On an open way stand objects at the beginnings of the path. -/
theorem Open.beginnings {p : List String} (h : t.Open p) {i : Nat} (bound : i < p.length - 1) {sub : Tree}
    (found : t.lookup? (p.take (i + 1)) = some sub) : ∃ members, sub = object members := by
  induction p generalizing t i with
  | nil => simp at bound
  | cons key rest ih =>
    cases rest with
    | nil => simp at bound
    | cons next rest =>
      rw [List.take_succ_cons, lookup?] at found
      obtain ⟨child, here, below⟩ := Option.bind_eq_some_iff.1 found
      have way := h.2 child here
      cases i with
      | zero =>
        cases below
        exact way.1
      | succ i => exact ih way (by simpa using bound) below

end Tree

end Dossier
