import Dossier.Proofs.Outcome
import Dossier.Sql.Document

/-!
# The keys of an object

Which keys the entries of an object have after a write or a removal, and which ones decoding gives: a key that
decodes is the text that the engine compares (`stringText_of_unescape?`), and no key comes twice.
-/

namespace Dossier

open Text

namespace Fields

variable {fields : Fields} {key k : String} {value : Json}

/-- A new key comes last. -/
theorem put_of_new (new : key ∉ keys fields) (value : Json) : fields.put key value = fields ++ [(key, value)] := by
  induction fields with
  | nil => rfl
  | cons f rest ih =>
    obtain ⟨name, v⟩ := f
    obtain ⟨other, later⟩ := not_or.1 (mt List.mem_cons.2 new)
    rw [put, if_neg (Ne.symm other), ih later]
    rfl

theorem keys_put : keys (fields.put key value) = if key ∈ keys fields then keys fields else keys fields ++ [key] := by
  induction fields with
  | nil => rfl
  | cons f rest ih =>
    obtain ⟨k, w⟩ := f
    rw [put]
    split
    · rename_i same
      subst same
      exact (if_pos List.mem_cons_self).symm
    · rename_i other
      have head : ∀ entries : Fields, keys ((k, w) :: entries) = k :: keys entries := fun _ => rfl
      rw [head, head, ih]
      by_cases mem : key ∈ keys rest
      · rw [if_pos mem, if_pos (List.mem_cons_of_mem _ mem)]
      · rw [if_neg mem, if_neg (by simp [Ne.symm other, mem])]
        rfl

theorem keys_erase : keys (fields.erase key) = (keys fields).erase key := by
  induction fields with
  | nil => rfl
  | cons f rest ih =>
    obtain ⟨k, w⟩ := f
    rw [erase]
    split
    · rename_i same
      subst same
      exact (List.erase_cons_head ..).symm
    · rename_i other
      exact (congrArg (k :: ·) ih).trans (List.erase_cons_tail (by simpa using other)).symm

theorem mem_keys_put (mem : k ∈ keys (fields.put key value)) : k ∈ keys fields ∨ k = key := by
  rw [keys_put] at mem
  split at mem
  · exact .inl mem
  · exact (List.mem_append.1 mem).imp_right List.mem_singleton.1

theorem mem_keys_erase (mem : k ∈ keys (fields.erase key)) : k ∈ keys fields := List.mem_of_mem_erase (keys_erase ▸ mem)

theorem mem_of_get? (found : fields.get? key = some value) : (key, value) ∈ fields := by
  induction fields with
  | nil => cases found
  | cons f rest ih =>
    obtain ⟨k, w⟩ := f
    rw [get?] at found
    split at found
    · rename_i same
      cases found
      exact same ▸ List.mem_cons_self
    · exact List.mem_cons_of_mem _ (ih found)

theorem mem_keys_of_get? (found : fields.get? key = some value) : key ∈ keys fields := List.mem_map_of_mem (mem_of_get? found)

theorem get?_eq_none : fields.get? key = none ↔ key ∉ keys fields := by
  induction fields with
  | nil => simp [keys]
  | cons f rest ih =>
    obtain ⟨k, w⟩ := f
    rw [get?]
    split
    · rename_i same
      simp [keys, same]
    · rename_i other
      rw [ih]
      simp [keys, Ne.symm other]

theorem nodup_put (distinct : (keys fields).Nodup) (key : String) (value : Json) : (keys (fields.put key value)).Nodup := by
  induction fields with
  | nil => exact List.pairwise_singleton _ key
  | cons f rest ih =>
    obtain ⟨name, v⟩ := f
    obtain ⟨first, others⟩ := List.nodup_cons.1 distinct
    rw [put]
    split
    · rename_i same
      subst same
      exact distinct
    · rename_i other
      refine List.nodup_cons.2 ⟨fun mem => ?_, ih others⟩
      rcases mem_keys_put mem with old | eq
      · exact first old
      · exact other eq

theorem nodup_foldl_put (fields entries : Fields) (distinct : (keys fields).Nodup) :
    (keys (entries.foldl (fun object e => Fields.put object e.1 e.2) fields)).Nodup := by
  induction entries generalizing fields with
  | nil => exact distinct
  | cons e rest ih => exact ih _ (nodup_put distinct e.1 e.2)

/-- Entries with new keys, written one after another, follow those that there are. -/
theorem foldl_put {entries : Fields} (distinct : (keys (fields ++ entries)).Nodup) :
    entries.foldl (fun object e => Fields.put object e.1 e.2) fields = fields ++ entries := by
  induction entries generalizing fields with
  | nil => exact (List.append_nil fields).symm
  | cons e rest ih =>
    have new : e.1 ∉ keys fields := by
      rw [keys, List.map_append, List.nodup_append] at distinct
      exact fun mem => distinct.2.2 _ mem _ List.mem_cons_self rfl
    have split : fields ++ e :: rest = fields ++ [e] ++ rest := by simp
    rw [List.foldl_cons, put_of_new new, ih (split ▸ distinct), split]

end Fields

/-- Entries are within others if there is an equal value under each of their keys. -/
theorem Json.within_iff {fields other : Fields} :
    Json.within fields other = true ↔ ∀ e ∈ fields, ∃ v, other.get? e.1 = some v ∧ e.2.equal v = true := by
  induction fields with
  | nil => simp [Json.within]
  | cons e rest ih =>
    obtain ⟨key, value⟩ := e
    rw [Json.within, Bool.and_eq_true, ih, List.forall_mem_cons]
    cases found : Fields.get? other key with
    | none => simp
    | some v => simp

/-! ## Keys that are decoded -/

/-- Where no half of a surrogate pair stands alone, it does not matter what it would stand for. -/
theorem joinPairs_of_none {codes : List Nat} {cs : List Char} (h : joinPairs none codes = some cs) (lone : Option Char) :
    joinPairs lone codes = some cs := by
  fun_induction joinPairs none codes generalizing cs with
  | case1 => exact h
  | case2 hi lo rest pair ih =>
    obtain ⟨later, joined, eq⟩ := Option.map_eq_some_iff.1 h
    rw [joinPairs, if_pos pair, ih joined, ← eq]
    rfl
  | case3 hi lo rest pair half ih => cases h
  | case4 hi lo rest pair half ih =>
    obtain ⟨later, joined, eq⟩ := Option.map_eq_some_iff.1 h
    rw [joinPairs, if_neg pair, if_neg half, ih joined, ← eq]
    rfl
  | case5 n half => cases h
  | case6 n half =>
    rw [joinPairs, if_neg half]
    exact h

theorem stringText_of_unescape? {raw : List Char} {key : String} (h : unescape? raw = some key) :
    Tree.stringText raw = key := by
  obtain ⟨cs, joined, rfl⟩ := Option.map_eq_some_iff.1 h
  rw [Tree.stringText, joinPairs_of_none joined, Option.getD_some]

namespace Tree

variable {read fields : Fields} {members : List (List Char × Tree)}

/-- A key of what is read was there before, or is the key of a member. -/
theorem mem_keys_jsonFields? (h : jsonFields? read members = some fields) {k : String} (mem : k ∈ Fields.keys fields) :
    k ∈ Fields.keys read ∨ ∃ m ∈ members, unescape? m.1 = some k := by
  induction members generalizing read with
  | nil =>
    rw [jsonFields?] at h
    cases h
    exact .inl mem
  | cons m rest ih =>
    obtain ⟨raw, t⟩ := m
    rw [jsonFields?] at h
    obtain ⟨key, named, h⟩ := Option.bind_eq_some_iff.1 h
    obtain ⟨j, -, h⟩ := Option.bind_eq_some_iff.1 h
    rcases ih h with known | ⟨m, later, named⟩
    · rcases Fields.mem_keys_put known with old | rfl
      · exact .inl old
      · exact .inr ⟨_, List.mem_cons_self, named⟩
    · exact .inr ⟨m, List.mem_cons_of_mem _ later, named⟩

theorem nodup_jsonFields? (h : jsonFields? read members = some fields) (distinct : (Fields.keys read).Nodup) :
    (Fields.keys fields).Nodup := by
  induction members generalizing read with
  | nil =>
    rw [jsonFields?] at h
    cases h
    exact distinct
  | cons m rest ih =>
    obtain ⟨raw, t⟩ := m
    rw [jsonFields?] at h
    obtain ⟨key, -, h⟩ := Option.bind_eq_some_iff.1 h
    obtain ⟨j, -, h⟩ := Option.bind_eq_some_iff.1 h
    exact ih h (Fields.nodup_put distinct key j)

/-- A tree whose value is an object is one, and its members are read as the entries. -/
theorem json?_object {t : Tree} (h : t.json? = some (.object fields)) :
    ∃ members, t = .object members ∧ jsonFields? [] members = some fields := by
  cases t with
  | object members =>
    obtain ⟨read, decoded, eq⟩ := Option.map_eq_some_iff.1 h
    cases eq
    exact ⟨members, rfl, decoded⟩
  | null | bool => cases h
  | number | string | array =>
    obtain ⟨_, -, eq⟩ := Option.map_eq_some_iff.1 h
    cases eq

/-- A tree that decodes to an object is one, and its members decode. -/
theorem decode?_object {t : Tree} (h : t.decode? = some (.object fields)) :
    ∃ members, t = .object members ∧ jsonFields? [] members = some fields := by
  unfold decode? at h
  split at h
  · exact json?_object h
  · cases h

end Tree

end Dossier
