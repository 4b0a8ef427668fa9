import Dossier.Proofs.Json.Distinct
import Dossier.Proofs.Json.Stored
import Dossier.Proofs.Update.Mirror

/-!
# What stays at a path

Writes and removals elsewhere leave what the engine finds at a path (`Tree.lookup?_set`, `Tree.lookup?_remove`). Reading a
tree again and decoding it leave it too, if it is what a value without doubles is written as (`Tree.lookup?_asRead`,
`Tree.lookup?_of_decoded`).
-/

namespace Dossier

open Text

namespace Tree

variable {key : String} {rest : List String} {t : Tree} {members : List (List Char × Tree)}

/-! ## Members -/

theorem member?_setMember (t : Tree) (key : String) (rest : List String) {other : String} (ne : key ≠ other)
    (members : List (List Char × Tree)) : member? other (setMember t key rest members) = member? other members := by
  induction members with
  | nil => simp [setMember, member?, stringText_escapeString, ne]
  | cons m others ih =>
    obtain ⟨raw, child⟩ := m
    rw [setMember]
    split
    · rename_i here
      have apart : stringText raw ≠ other := here ▸ ne
      simp [member?, apart]
    · rw [member?, member?, ih]

theorem member?_setMember_self {child : Tree} (t : Tree) (rest : List String) (found : member? key members = some child) :
    member? key (setMember t key rest members) = some (set t rest child) := by
  induction members with
  | nil => cases found
  | cons m others ih =>
    obtain ⟨raw, first⟩ := m
    rw [member?] at found
    rw [setMember]
    split at found
    · rename_i here
      cases found
      simp [member?, here]
    · rename_i there
      simp [member?, there, ih found]

theorem member?_eraseMember {other : String} (ne : key ≠ other) (members : List (List Char × Tree)) :
    member? other (eraseMember key members) = member? other members := by
  induction members with
  | nil => rfl
  | cons m others ih =>
    obtain ⟨raw, child⟩ := m
    rw [eraseMember]
    split
    · rename_i here
      have apart : stringText raw ≠ other := here ▸ ne
      simp [member?, apart]
    · rw [member?, member?, ih]

theorem member?_mapMember {f : Tree → Tree} {other : String} (ne : key ≠ other) (members : List (List Char × Tree)) :
    member? other (mapMember f key members) = member? other members := by
  induction members with
  | nil => rfl
  | cons m others ih =>
    obtain ⟨raw, child⟩ := m
    rw [mapMember]
    split
    · rename_i here
      have apart : stringText raw ≠ other := here ▸ ne
      simp [member?, apart]
    · rw [member?, member?, ih]

theorem member?_mapMember_self (f : Tree → Tree) (key : String) (members : List (List Char × Tree)) :
    member? key (mapMember f key members) = (member? key members).map f := by
  induction members with
  | nil => rfl
  | cons m others ih =>
    obtain ⟨raw, child⟩ := m
    rw [mapMember]
    split
    · rename_i here
      simp [member?, here]
    · rename_i there
      simp [member?, there, ih]

/-! ## Edits elsewhere -/

/-- A write at a path leaves what is found at the paths apart from it. -/
theorem lookup?_set {p q : List String} (apart : Apart p q) (t : Tree) {u sub : Tree} (found : u.lookup? q = some sub) :
    (set t p u).lookup? q = some sub := by
  match p, q with
  | [], _ => exact absurd rfl apart.ne_nil.1
  | _ :: _, [] => exact absurd rfl apart.ne_nil.2
  | a :: p, b :: q =>
    obtain ⟨child, first, below⟩ := Option.bind_eq_some_iff.1 found
    cases u with
    | object members =>
      rw [lookup?, set, child?]
      rcases apart.cases_cons with ne | ⟨rfl, a', p', b', q', rfl, rfl, apart'⟩
      · rw [member?_setMember t a p ne]
        exact found
      · rw [member?_setMember_self t (a' :: p') first, Option.bind_some]
        exact lookup?_set apart' t below
    | _ => cases first

/-- A removal at a path leaves what is found at the paths apart from it. -/
theorem lookup?_remove {p q : List String} (apart : Apart p q) {u sub : Tree} (found : u.lookup? q = some sub) :
    (remove p u).lookup? q = some sub := by
  match p, q with
  | [], _ => exact absurd rfl apart.ne_nil.1
  | _ :: _, [] => exact absurd rfl apart.ne_nil.2
  | a :: p, b :: q =>
    obtain ⟨child, first, below⟩ := Option.bind_eq_some_iff.1 found
    cases u with
    | object members =>
      rcases apart.cases_cons with ne | ⟨rfl, a', p', b', q', rfl, rfl, apart'⟩
      · cases p with
        | nil =>
          rw [remove, lookup?, child?, member?_eraseMember ne]
          exact found
        | cons a' p' =>
          rw [remove, lookup?, child?, member?_mapMember ne]
          · exact found
          · simp
      · have first : member? a members = some child := first
        rw [remove, lookup?, child?, member?_mapMember_self, first, Option.map_some, Option.bind_some]
        · exact lookup?_remove apart' below
        · simp
    | _ => cases first

/-! ## Reading again -/

theorem member?_membersAsRead (key : String) (members : List (List Char × Tree)) :
    member? key (membersAsRead members) = (member? key members).map asRead := by
  induction members with
  | nil => rfl
  | cons m rest ih =>
    obtain ⟨raw, child⟩ := m
    rw [membersAsRead, member?, member?]
    split
    · rfl
    · exact ih

theorem lookup?_asRead {path : List String} {u sub : Tree} (found : u.lookup? path = some sub) :
    u.asRead.lookup? path = some sub.asRead := by
  induction path generalizing u with
  | nil =>
    cases found
    rfl
  | cons key rest ih =>
    obtain ⟨child, first, below⟩ := Option.bind_eq_some_iff.1 found
    cases u with
    | object members =>
      have first : member? key members = some child := first
      rw [asRead, lookup?, child?, member?_membersAsRead, first, Option.map_some, Option.bind_some]
      exact ih below
    | _ => cases first

mutual
/-- A tree of the grammar has no number that reads as null. -/
theorem asRead_eq_self (t : Tree) (h : t.isGrammatical = true) : t.asRead = t := by
  cases t with
  | null | bool | string => rfl
  | number text =>
    refine if_neg fun same => ?_
    subst same
    exact absurd h (by decide)
  | array items => exact congrArg array (itemsAsRead_eq_self items h)
  | object members => exact congrArg object (membersAsRead_eq_self members h)

theorem itemsAsRead_eq_self (items : List Tree) (h : areGrammatical items = true) : itemsAsRead items = items := by
  match items with
  | [] => rfl
  | t :: rest =>
    rw [areGrammatical, Bool.and_eq_true] at h
    rw [itemsAsRead, asRead_eq_self t h.1, itemsAsRead_eq_self rest h.2]

theorem membersAsRead_eq_self (members : List (List Char × Tree)) (h : membersGrammatical members = true) :
    membersAsRead members = members := by
  match members with
  | [] => rfl
  | (key, t) :: rest =>
    simp only [membersGrammatical, Bool.and_eq_true] at h
    rw [membersAsRead, asRead_eq_self t h.1.2, membersAsRead_eq_self rest h.2]
end

/-! ## Decoding -/

/-- Where no two members share a key, a member is what reading adds under its key. -/
theorem get?_of_member? {before fields : Fields} {child : Tree} (distinct : (memberKeys members).Nodup)
    (read : jsonFields? before members = some fields) (found : member? key members = some child) :
    ∃ v, child.json? = some v ∧ fields.get? key = some v := by
  induction members generalizing before with
  | nil => cases found
  | cons m rest ih =>
    obtain ⟨raw, first⟩ := m
    obtain ⟨absent, others⟩ := List.nodup_cons.1 distinct
    obtain ⟨k, named, read⟩ := Option.bind_eq_some_iff.1 read
    obtain ⟨v, value, later⟩ := Option.bind_eq_some_iff.1 read
    have text : stringText raw = k := stringText_of_unescape? named
    rw [member?] at found
    split at found
    · rename_i here
      cases found
      obtain rfl := here.symm.trans text
      exact ⟨v, value, (get?_of_jsonFields? later (here ▸ absent)).trans (Fields.get?_put_self ..)⟩
    · exact ih others later found

/-- What decoding makes of a tree has at a path the value of what is found there. -/
theorem lookup?_of_decoded {path : List String} {u sub : Tree} {j : Json} (distinct : u.isDistinct = true)
    (read : u.json? = some j) (found : u.lookup? path = some sub) :
    ∃ v, sub.json? = some v ∧ j.tree.lookup? path = some v.tree := by
  induction path generalizing u j with
  | nil =>
    cases found
    exact ⟨j, read, rfl⟩
  | cons key rest ih =>
    obtain ⟨child, first, below⟩ := Option.bind_eq_some_iff.1 found
    cases u with
    | object members =>
      obtain ⟨keys, values⟩ := isDistinct_object.1 distinct
      obtain ⟨fields, all, rfl⟩ := Option.map_eq_some_iff.1 read
      obtain ⟨raw, mem⟩ := mem_of_member? first
      obtain ⟨v, value, entry⟩ := get?_of_member? keys all first
      obtain ⟨w, last, there⟩ := ih (values _ mem) value below
      refine ⟨w, last, ?_⟩
      rw [lookup?, Json.child?_tree, entry, Option.map_some, Option.bind_some]
      exact there
    | _ => cases first

end Tree

/-! ## Values without doubles -/

namespace Json

variable {v : Json}

theorem isDistinct_tree (plain : v.isPlain = true) : v.tree.isDistinct = true :=
  Tree.isDistinct_of_json? _ (json?_tree v plain)

theorem asRead_tree (plain : v.isPlain = true) : v.tree.asRead = v.tree :=
  Tree.asRead_eq_self _ (isGrammatical_tree v (isFinite_of_isPlain v plain))

end Json

end Dossier
