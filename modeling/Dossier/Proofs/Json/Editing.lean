import Dossier.Proofs.Json.Written

/-!
# Edited trees

What the members of an edited object are: `Tree.mem_setMember` for a value written below a key,
`Tree.mem_mapMember` and `Tree.mem_eraseMember` for one taken out. From these come what an edited tree consists of
and how deep it nests.
-/

namespace Dossier.Tree

variable {S N : List Char → Prop} {key : String} {rest : List String} {t : Tree} {members : List (List Char × Tree)}
  {m : List Char × Tree}

/-! ## Members -/

/-- A member after a write below a key: an old one, the changed one under the key, or a new one. -/
theorem mem_setMember (mem : m ∈ setMember t key rest members) : m ∈ members
    ∨ (∃ child, (m.1, child) ∈ members ∧ m.2 = set t rest child) ∨ m = (escapeString key, nest rest t) := by
  induction members with
  | nil => exact .inr (.inr (List.mem_singleton.1 mem))
  | cons first others ih =>
    obtain ⟨raw, child⟩ := first
    rw [setMember] at mem
    split at mem
    · rcases List.mem_cons.1 mem with rfl | later
      · exact .inr (.inl ⟨child, List.mem_cons_self, rfl⟩)
      · exact .inl (List.mem_cons_of_mem _ later)
    · rcases List.mem_cons.1 mem with rfl | later
      · exact .inl List.mem_cons_self
      · rcases ih later with old | ⟨c, mem, eq⟩ | new
        · exact .inl (List.mem_cons_of_mem _ old)
        · exact .inr (.inl ⟨c, List.mem_cons_of_mem _ mem, eq⟩)
        · exact .inr (.inr new)

theorem mem_eraseMember (mem : m ∈ eraseMember key members) : m ∈ members := by
  induction members with
  | nil => cases mem
  | cons first others ih =>
    obtain ⟨raw, child⟩ := first
    rw [eraseMember] at mem
    split at mem
    · exact List.mem_cons_of_mem _ mem
    · rcases List.mem_cons.1 mem with rfl | later
      · exact List.mem_cons_self
      · exact List.mem_cons_of_mem _ (ih later)

theorem mem_mapMember {f : Tree → Tree} (mem : m ∈ mapMember f key members) :
    m ∈ members ∨ ∃ child, (m.1, child) ∈ members ∧ m.2 = f child := by
  induction members with
  | nil => cases mem
  | cons first others ih =>
    obtain ⟨raw, child⟩ := first
    rw [mapMember] at mem
    split at mem
    · rcases List.mem_cons.1 mem with rfl | later
      · exact .inr ⟨child, List.mem_cons_self, rfl⟩
      · exact .inl (List.mem_cons_of_mem _ later)
    · rcases List.mem_cons.1 mem with rfl | later
      · exact .inl List.mem_cons_self
      · rcases ih later with old | ⟨c, mem, eq⟩
        · exact .inl (List.mem_cons_of_mem _ old)
        · exact .inr ⟨c, List.mem_cons_of_mem _ mem, eq⟩

theorem remove_nil (u : Tree) : remove [] u = u := by cases u <;> rfl

/-- Nothing is taken out of what is no object. -/
theorem remove_eq_self (path : List String) {u : Tree} (h : ∀ members, u ≠ object members) : remove path u = u := by
  cases path with
  | nil => exact remove_nil u
  | cons key rest =>
    cases u with
    | object members => exact absurd rfl (h members)
    | _ => cases rest <;> rfl

theorem exists_set_object (t : Tree) {path : List String} (ne : path ≠ []) (members : List (List Char × Tree)) :
    ∃ edited, set t path (object members) = object edited := by
  cases path with
  | nil => exact absurd rfl ne
  | cons key rest => exact ⟨_, rfl⟩

theorem exists_remove_object (path : List String) (members : List (List Char × Tree)) :
    ∃ edited, remove path (object members) = object edited := by
  cases path with
  | nil => exact ⟨members, rfl⟩
  | cons key rest => cases rest <;> exact ⟨_, rfl⟩

/-! ## What edited trees consist of -/

theorem Consists.nest (keys : ∀ s : String, S (escapeString s)) (value : t.Consists S N) (path : List String) :
    (nest path t).Consists S N := by
  induction path with
  | nil => exact value
  | cons key rest ih => exact ⟨keys key, ih, trivial⟩

theorem Consists.set (keys : ∀ s : String, S (escapeString s)) (value : t.Consists S N) (path : List String) {u : Tree}
    (h : u.Consists S N) : (set t path u).Consists S N := by
  induction path generalizing u with
  | nil =>
    rw [Tree.set]
    exact value
  | cons key rest ih =>
    cases u with
    | object members =>
      have all := membersConsist_iff.1 h
      refine membersConsist_iff.2 fun m mem => ?_
      rcases mem_setMember mem with old | ⟨child, mem, eq⟩ | rfl
      · exact all m old
      · exact ⟨(all _ mem).1, eq ▸ ih (all _ mem).2⟩
      · exact ⟨keys key, value.nest keys rest⟩
    | _ => exact h

theorem Consists.remove (path : List String) {u : Tree} (h : u.Consists S N) : (remove path u).Consists S N := by
  induction path generalizing u with
  | nil =>
    rw [remove_nil]
    exact h
  | cons key rest ih =>
    cases u with
    | object members =>
      have all := membersConsist_iff.1 h
      cases rest with
      | nil => exact membersConsist_iff.2 fun m mem => all m (mem_eraseMember mem)
      | cons next rest =>
        refine membersConsist_iff.2 fun m mem => ?_
        rcases mem_mapMember mem with old | ⟨child, mem, eq⟩
        · exact all m old
        · exact ⟨(all _ mem).1, eq ▸ ih (all _ mem).2⟩
    | _ =>
      rw [remove_eq_self _ (by simp)]
      exact h

/-! ## How deep edited trees nest -/

theorem membersDepth_le {n : Nat} : membersDepth members ≤ n ↔ ∀ m ∈ members, m.2.depth ≤ n := by
  induction members with
  | nil => simp [membersDepth]
  | cons m rest ih =>
    obtain ⟨key, t⟩ := m
    rw [List.forall_mem_cons, ← ih, membersDepth, Nat.max_le]

theorem depth_nest (path : List String) (t : Tree) : (nest path t).depth = path.length + t.depth := by
  induction path with
  | nil => simp [nest]
  | cons key rest ih =>
    rw [nest, depth, membersDepth, membersDepth, ih, List.length_cons]
    omega

/-- A write at a path makes nothing deeper than what was there, or than the path with the value at its end. -/
theorem depth_set {n : Nat} (path : List String) (value : path.length + t.depth ≤ n) {u : Tree} (h : u.depth ≤ n) :
    (set t path u).depth ≤ n := by
  induction path generalizing u n with
  | nil =>
    rw [List.length_nil] at value
    rw [set]
    omega
  | cons key rest ih =>
    cases u with
    | object members =>
      rw [List.length_cons] at value
      rw [depth] at h
      rw [set, depth]
      have all : ∀ m ∈ members, m.2.depth ≤ n - 1 := membersDepth_le.1 (by omega)
      have edited : membersDepth (setMember t key rest members) ≤ n - 1 := by
        refine membersDepth_le.2 fun m mem => ?_
        rcases mem_setMember mem with old | ⟨child, mem, eq⟩ | rfl
        · exact all m old
        · exact eq ▸ ih (by omega) (all _ mem)
        · rw [depth_nest]
          omega
      omega
    | _ => exact h

theorem depth_remove {n : Nat} (path : List String) {u : Tree} (h : u.depth ≤ n) : (remove path u).depth ≤ n := by
  induction path generalizing u n with
  | nil =>
    rw [remove_nil]
    exact h
  | cons key rest ih =>
    cases u with
    | object members =>
      rw [depth] at h
      have all : ∀ m ∈ members, m.2.depth ≤ n - 1 := membersDepth_le.1 (by omega)
      have edited : ∀ others, (∀ m ∈ others, m.2.depth ≤ n - 1) → (object others).depth ≤ n := by
        intro others each
        have := membersDepth_le.2 each
        rw [depth]
        omega
      cases rest with
      | nil => exact edited _ fun m mem => all m (mem_eraseMember mem)
      | cons next rest =>
        refine edited _ fun m mem => ?_
        rcases mem_mapMember mem with old | ⟨child, mem, eq⟩
        · exact all m old
        · exact eq ▸ ih (all _ mem)
    | _ =>
      rw [remove_eq_self _ (by simp)]
      exact h

end Dossier.Tree
