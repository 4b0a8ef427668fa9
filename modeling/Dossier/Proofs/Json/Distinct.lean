import Dossier.Proofs.Json.Decoding
import Dossier.Proofs.Json.Editing
import Dossier.Proofs.Json.Keys
import Dossier.Proofs.Update.Place

/-!
# Objects that repeat no key

The engine takes the first of the members that share a key, decoding the last. `Tree.isDistinct`: no object of the tree has
two members of one key. Writes, removals and decoding keep this or bring it about, and in such a tree the engine finds at a
path the text of the value that the decoded entries have there (`Tree.lookup?_of_json?`).
-/

namespace Dossier

open Text

namespace Tree

variable {key : String} {rest : List String} {t : Tree} {members : List (List Char × Tree)}

/-- The keys of members, as the engine compares them. -/
def memberKeys (members : List (List Char × Tree)) : List String := members.map fun m => stringText m.1

mutual
/-- No object of the tree has two members of one key. -/
def isDistinct : Tree → Bool
  | array items => areDistinct items
  | object members => decide (memberKeys members).Nodup && membersDistinct members
  | _ => true

/-- All items are so. -/
def areDistinct : List Tree → Bool
  | [] => true
  | t :: rest => isDistinct t && areDistinct rest

/-- All values of the members are so. -/
def membersDistinct : List (List Char × Tree) → Bool
  | [] => true
  | (_, t) :: rest => isDistinct t && membersDistinct rest
end

theorem areDistinct_iff {items : List Tree} : areDistinct items = true ↔ ∀ t ∈ items, t.isDistinct = true := by
  induction items with
  | nil => simp [areDistinct]
  | cons t rest ih => simp [areDistinct, ih]

theorem membersDistinct_iff : membersDistinct members = true ↔ ∀ m ∈ members, m.2.isDistinct = true := by
  induction members with
  | nil => simp [membersDistinct]
  | cons m rest ih => simp [membersDistinct, ih]

theorem isDistinct_object : (object members).isDistinct = true
    ↔ (memberKeys members).Nodup ∧ ∀ m ∈ members, m.2.isDistinct = true := by
  rw [isDistinct, Bool.and_eq_true, decide_eq_true_iff, membersDistinct_iff]

/-! ## Keys of edited objects -/

/-- A write below a key leaves the keys, or adds the key as the last one. -/
theorem memberKeys_setMember (t : Tree) (key : String) (rest : List String) (members : List (List Char × Tree)) :
    memberKeys (setMember t key rest members)
      = if key ∈ memberKeys members then memberKeys members else memberKeys members ++ [key] := by
  induction members with
  | nil => simp [setMember, memberKeys, stringText_escapeString]
  | cons m others ih =>
    obtain ⟨raw, child⟩ := m
    rw [setMember]
    split
    · rename_i same
      simp [memberKeys, same]
    · rename_i other
      have tail : memberKeys ((raw, child) :: others) = stringText raw :: memberKeys others := rfl
      rw [tail]
      have new : memberKeys ((raw, child) :: setMember t key rest others)
          = stringText raw :: memberKeys (setMember t key rest others) := rfl
      rw [new, ih]
      split
      · rename_i mem
        rw [if_pos (List.mem_cons_of_mem _ mem)]
      · rename_i absent
        rw [if_neg (by simp [Ne.symm other, absent])]
        rfl

theorem nodup_setMember (distinct : (memberKeys members).Nodup) (t : Tree) (key : String) (rest : List String) :
    (memberKeys (setMember t key rest members)).Nodup := by
  rw [memberKeys_setMember]
  split
  · exact distinct
  · rename_i absent
    exact List.nodup_append.2 ⟨distinct, List.pairwise_singleton _ key, by
      rintro a mem b here rfl
      exact absent (List.mem_singleton.1 here ▸ mem)⟩

theorem sublist_eraseMember (key : String) (members : List (List Char × Tree)) :
    (eraseMember key members).Sublist members := by
  induction members with
  | nil => exact List.Sublist.refl _
  | cons m others ih =>
    obtain ⟨raw, child⟩ := m
    rw [eraseMember]
    split
    · exact List.sublist_cons_self ..
    · exact ih.cons_cons _

theorem memberKeys_mapMember (f : Tree → Tree) (key : String) (members : List (List Char × Tree)) :
    memberKeys (mapMember f key members) = memberKeys members := by
  induction members with
  | nil => rfl
  | cons m others ih =>
    obtain ⟨raw, child⟩ := m
    rw [mapMember]
    split
    · rfl
    · exact congrArg (stringText raw :: ·) ih

/-! ## Edited trees -/

theorem isDistinct_nest (distinct : t.isDistinct = true) (path : List String) : (nest path t).isDistinct = true := by
  induction path with
  | nil => exact distinct
  | cons key rest ih =>
    exact isDistinct_object.2 ⟨List.pairwise_singleton _ _, fun m mem => by rw [List.mem_singleton.1 mem]; exact ih⟩

theorem isDistinct_set (value : t.isDistinct = true) (path : List String) {u : Tree} (h : u.isDistinct = true) :
    (set t path u).isDistinct = true := by
  induction path generalizing u with
  | nil =>
    rw [set]
    exact value
  | cons key rest ih =>
    cases u with
    | object members =>
      obtain ⟨keys, values⟩ := isDistinct_object.1 h
      refine isDistinct_object.2 ⟨nodup_setMember keys t key rest, fun m mem => ?_⟩
      rcases mem_setMember mem with old | ⟨child, old, eq⟩ | rfl
      · exact values m old
      · exact eq ▸ ih (values _ old)
      · exact isDistinct_nest value rest
    | _ => exact h

theorem isDistinct_remove (path : List String) {u : Tree} (h : u.isDistinct = true) : (remove path u).isDistinct = true := by
  induction path generalizing u with
  | nil =>
    rw [remove_nil]
    exact h
  | cons key rest ih =>
    cases u with
    | object members =>
      obtain ⟨keys, values⟩ := isDistinct_object.1 h
      cases rest with
      | nil =>
        exact isDistinct_object.2 ⟨keys.sublist ((sublist_eraseMember key members).map _),
          fun m mem => values m (mem_eraseMember mem)⟩
      | cons next rest =>
        refine isDistinct_object.2 ⟨(memberKeys_mapMember _ key members).symm ▸ keys, fun m mem => ?_⟩
        rcases mem_mapMember mem with old | ⟨child, old, eq⟩
        · exact values m old
        · exact eq ▸ ih (values _ old)
    | _ =>
      rw [remove_eq_self _ (by simp)]
      exact h

mutual
theorem isDistinct_asRead (t : Tree) (h : t.isDistinct = true) : t.asRead.isDistinct = true := by
  cases t with
  | null | bool | string => rfl
  | number text =>
    rw [asRead]
    split <;> rfl
  | array items => exact areDistinct_itemsAsRead items h
  | object members =>
    obtain ⟨keys, -⟩ := isDistinct_object.1 h
    rw [isDistinct, Bool.and_eq_true] at h
    rw [asRead, isDistinct, Bool.and_eq_true]
    refine ⟨decide_eq_true ?_, membersDistinct_membersAsRead members h.2⟩
    rw [membersAsRead_eq]
    simpa [memberKeys, Function.comp_def] using keys

theorem areDistinct_itemsAsRead (items : List Tree) (h : areDistinct items = true) : areDistinct (itemsAsRead items) = true := by
  match items with
  | [] => rfl
  | t :: rest =>
    rw [areDistinct, Bool.and_eq_true] at h
    rw [itemsAsRead, areDistinct, isDistinct_asRead t h.1, areDistinct_itemsAsRead rest h.2]
    rfl

theorem membersDistinct_membersAsRead (members : List (List Char × Tree)) (h : membersDistinct members = true) :
    membersDistinct (membersAsRead members) = true := by
  match members with
  | [] => rfl
  | (key, t) :: rest =>
    rw [membersDistinct, Bool.and_eq_true] at h
    rw [membersAsRead, membersDistinct, isDistinct_asRead t h.1, membersDistinct_membersAsRead rest h.2]
    rfl
end

/-! ## Decoded values -/

theorem memberKeys_fieldTrees (fields : Fields) : memberKeys (Json.fieldTrees fields) = Fields.keys fields := by
  induction fields with
  | nil => rfl
  | cons f rest ih =>
    have first : stringText (escapeString f.1) = f.1 := stringText_escapeString f.1
    exact (congrArg (· :: _) first).trans (congrArg (f.1 :: ·) ih)

theorem isDistinct_put {fields : Fields} {v : Json} (key : String) (values : membersDistinct (Json.fieldTrees fields) = true)
    (value : v.tree.isDistinct = true) : membersDistinct (Json.fieldTrees (fields.put key v)) = true := by
  induction fields with
  | nil => simpa [Fields.put, Json.fieldTrees, membersDistinct] using value
  | cons f rest ih =>
    obtain ⟨k, w⟩ := f
    rw [Json.fieldTrees, membersDistinct, Bool.and_eq_true] at values
    rw [Fields.put]
    split
    · simp [Json.fieldTrees, membersDistinct, value, values.2]
    · simp [Json.fieldTrees, membersDistinct, values.1, ih values.2]

mutual
/-- Decoding leaves no repeated key. -/
theorem isDistinct_of_json? (t : Tree) {j : Json} (read : t.json? = some j) : j.tree.isDistinct = true := by
  cases t with
  | null | bool => cases read; rfl
  | number text =>
    obtain ⟨n, -, rfl⟩ := Option.map_eq_some_iff.1 read
    rfl
  | string raw =>
    obtain ⟨s, -, rfl⟩ := Option.map_eq_some_iff.1 read
    rfl
  | array items =>
    obtain ⟨js, all, rfl⟩ := Option.map_eq_some_iff.1 read
    exact areDistinct_of_jsonItems? items all
  | object members =>
    obtain ⟨fields, all, rfl⟩ := Option.map_eq_some_iff.1 read
    rw [Json.tree, isDistinct, memberKeys_fieldTrees, Bool.and_eq_true]
    exact ⟨decide_eq_true (nodup_jsonFields? all List.nodup_nil), membersDistinct_of_jsonFields? members rfl all⟩

theorem areDistinct_of_jsonItems? (items : List Tree) {js : List Json} (read : jsonItems? items = some js) :
    areDistinct (Json.itemTrees js) = true := by
  match items with
  | [] => cases read; rfl
  | t :: rest =>
    obtain ⟨j, first, read⟩ := Option.bind_eq_some_iff.1 read
    obtain ⟨others, later, rfl⟩ := Option.map_eq_some_iff.1 read
    rw [Json.itemTrees, areDistinct, isDistinct_of_json? t first, areDistinct_of_jsonItems? rest later]
    rfl

theorem membersDistinct_of_jsonFields? (members : List (List Char × Tree)) {before fields : Fields}
    (start : membersDistinct (Json.fieldTrees before) = true) (read : jsonFields? before members = some fields) :
    membersDistinct (Json.fieldTrees fields) = true := by
  match members with
  | [] => cases read; exact start
  | (key, t) :: rest =>
    obtain ⟨k, -, read⟩ := Option.bind_eq_some_iff.1 read
    obtain ⟨j, first, read⟩ := Option.bind_eq_some_iff.1 read
    exact membersDistinct_of_jsonFields? rest (isDistinct_put k start (isDistinct_of_json? t first)) read
end

/-! ## Looking up -/

theorem mem_of_member? (found : member? key members = some t) : ∃ raw, (raw, t) ∈ members := by
  induction members with
  | nil => cases found
  | cons m rest ih =>
    obtain ⟨raw, child⟩ := m
    rw [member?] at found
    split at found
    · cases found
      exact ⟨raw, List.mem_cons_self⟩
    · obtain ⟨other, mem⟩ := ih found
      exact ⟨other, List.mem_cons_of_mem _ mem⟩

/-- What objects pass on to the values of their members holds of what is found at a path. -/
theorem lookup?_keeps {P : Tree → Prop} (passes : ∀ members, P (object members) → ∀ m ∈ members, P m.2) {path : List String}
    {u : Tree} (found : u.lookup? path = some t) (h : P u) : P t := by
  induction path generalizing u with
  | nil =>
    cases found
    exact h
  | cons key rest ih =>
    obtain ⟨child, first, below⟩ := Option.bind_eq_some_iff.1 found
    cases u with
    | object members =>
      obtain ⟨raw, mem⟩ := mem_of_member? first
      exact ih below (passes members h _ mem)
    | _ => cases first

theorem isDistinct_lookup? {path : List String} {u : Tree} (found : u.lookup? path = some t) (h : u.isDistinct = true) :
    t.isDistinct = true :=
  lookup?_keeps (P := fun t => t.isDistinct = true) (fun _ h => (isDistinct_object.1 h).2) found h

theorem Consists.lookup? {S N : List Char → Prop} {path : List String} {u : Tree} (found : u.lookup? path = some t)
    (h : u.Consists S N) : t.Consists S N :=
  lookup?_keeps (P := Consists S N) (fun _ h m mem => (membersConsist_iff.1 h m mem).2) found h

/-- A key that no member has keeps its value. -/
theorem get?_of_jsonFields? {before fields : Fields} (read : jsonFields? before members = some fields)
    (absent : key ∉ memberKeys members) : fields.get? key = before.get? key := by
  induction members generalizing before with
  | nil => cases read; rfl
  | cons m rest ih =>
    obtain ⟨k, named, read⟩ := Option.bind_eq_some_iff.1 read
    obtain ⟨j, -, read⟩ := Option.bind_eq_some_iff.1 read
    obtain ⟨other, later⟩ := List.ne_and_not_mem_of_not_mem_cons absent
    have text : stringText m.1 = k := stringText_of_unescape? named
    rw [ih read later, Fields.get?_put_of_ne _ _ (text ▸ Ne.symm other)]

/-- Where no two members share a key, an entry that reading adds is the value of the member under its key. -/
theorem member?_of_jsonFields? {before fields : Fields} {v : Json} (distinct : (memberKeys members).Nodup)
    (read : jsonFields? before members = some fields) (new : before.get? key = none) (found : fields.get? key = some v) :
    ∃ m ∈ members, member? key members = some m.2 ∧ m.2.json? = some v := by
  induction members generalizing before with
  | nil =>
    cases read
    rw [new] at found
    cases found
  | cons m rest ih =>
    obtain ⟨raw, child⟩ := m
    obtain ⟨first, others⟩ := List.nodup_cons.1 distinct
    obtain ⟨k, named, read⟩ := Option.bind_eq_some_iff.1 read
    obtain ⟨j, value, read⟩ := Option.bind_eq_some_iff.1 read
    have text : stringText raw = k := stringText_of_unescape? named
    rw [member?, text]
    split
    · rename_i same
      subst same
      rw [get?_of_jsonFields? read (text ▸ first), Fields.get?_put_self] at found
      cases found
      exact ⟨(raw, child), List.mem_cons_self, rfl, value⟩
    · rename_i other
      obtain ⟨m, mem, there⟩ := ih others read (by rw [Fields.get?_put_of_ne _ _ other, new])
      exact ⟨m, List.mem_cons_of_mem _ mem, there⟩

/-- What the decoded entries have at a path is the value of what the engine finds there. -/
theorem lookup?_of_json? {fields : Fields} {segments : List String} {v : Json} (distinct : t.isDistinct = true)
    (read : t.json? = some (.object fields)) (found : fields.getAt? segments = some v) :
    ∃ sub, t.lookup? segments = some sub ∧ sub.json? = some v := by
  induction segments generalizing t fields with
  | nil => cases found
  | cons s rest ih =>
    obtain ⟨members, rfl, all⟩ := json?_object read
    obtain ⟨keys, values⟩ := isDistinct_object.1 distinct
    cases rest with
    | nil =>
      obtain ⟨m, -, there, value⟩ := member?_of_jsonFields? keys all (Fields.get?_nil s) found
      exact ⟨m.2, by rw [lookup?, child?, there]; rfl, value⟩
    | cons next rest =>
      obtain ⟨inner, entry, found⟩ := Fields.getAt?_cons_eq_some.1 found
      obtain ⟨m, mem, there, value⟩ := member?_of_jsonFields? keys all (Fields.get?_nil s) entry
      obtain ⟨sub, below, decoded⟩ := ih (values m mem) value found
      exact ⟨sub, by rw [lookup?, child?, there, Option.bind_some, below], decoded⟩

end Tree

end Dossier
