import Mathlib.Data.List.TakeWhile
import Dossier.Collection.Basic
import Dossier.Proofs.Json.Editing
import Dossier.Proofs.Json.Keys

/-!
# What decodes

A whole number of 64 bits is read as it was written (`Number.ofChars?_intText`), so a written tree decodes as long as
the texts of its doubles read back (`Tree.exists_json?`), and a value without doubles of which no object repeats a key
decodes to itself, the order of its keys included (`Json.json?_tree`). Decoding makes nothing deeper.
-/

namespace Dossier

open Decimal Text

/-! ## Whole numbers -/

namespace Decimal

/-- More digits do not make a number smaller. -/
theorem le_foldl_digits (ds : List Char) (m : Nat) : m ≤ ds.foldl (fun acc c => 10 * acc + (c.toNat - 48)) m := by
  induction ds generalizing m with
  | nil => exact Nat.le_refl m
  | cons d ds ih =>
    have := ih (10 * m + (d.toNat - 48))
    rw [List.foldl_cons]
    omega

/-- Digits that fit in 64 bits are all read. -/
theorem takeDigits_eq {ds : List Char} {n : UInt64} {used v : Nat}
    (value : ds.foldl (fun acc c => 10 * acc + (c.toNat - 48)) n.toNat = v) (fits : v < 0x10000000000000000) :
    takeDigits n used ds = (UInt64.ofNat v, used + ds.length, []) := by
  induction ds generalizing n used with
  | nil =>
    obtain rfl : n.toNat = v := value
    rw [takeDigits, UInt64.ofNat_toNat]
    rfl
  | cons d ds ih =>
    rw [List.foldl_cons] at value
    have small : 10 * n.toNat + (d.toNat - 48) < 0x10000000000000000 := by
      have := le_foldl_digits ds (10 * n.toNat + (d.toNat - 48))
      omega
    have read : (UInt64.ofNat (10 * n.toNat + (d.toNat - 48))).toNat = 10 * n.toNat + (d.toNat - 48) :=
      UInt64.toNat_ofNat_of_lt' small
    rw [takeDigits, if_pos small, ih (by rw [read, value]), List.length_cons, Nat.add_assoc, Nat.add_comm 1]

end Decimal

theorem Whole.ofInt?_val (n : Whole) : ofInt? n.val = some n := dif_pos n.property

namespace Number

/-- The digits of a whole number of 64 bits are read as that number. -/
theorem ofDigits?_natDigits {n : Whole} : ofDigits? (decide (n.val < 0)) (natDigits n.val.natAbs) = some (.whole n) := by
  have bounds := n.property
  have small : n.val.natAbs < 0x10000000000000000 := by omega
  have taken : takeDigits 0 0 (natDigits n.val.natAbs)
      = (UInt64.ofNat n.val.natAbs, 0 + (natDigits n.val.natAbs).length, []) :=
    takeDigits_eq (decimalNumber_natDigits n.val.natAbs) small
  have number : (UInt64.ofNat n.val.natAbs).toNat = n.val.natAbs := UInt64.toNat_ofNat_of_lt' small
  rw [ofDigits?]
  simp only [taken, number, List.isEmpty_nil, if_true, decide_eq_true_eq]
  split
  · have inside : (decide (0 < n.val.natAbs) && decide (n.val.natAbs ≤ 0x8000000000000000)) = true := by
      rw [Bool.and_eq_true, decide_eq_true_eq, decide_eq_true_eq]
      omega
    have back : -(n.val.natAbs : Int) = n.val := by omega
    rw [if_pos inside, back, Whole.ofInt?_val]
    rfl
  · have back : (n.val.natAbs : Int) = n.val := by omega
    rw [back, Whole.ofInt?_val]
    rfl

/-- A whole number of 64 bits reads as it is written. -/
theorem ofChars?_intText (n : Whole) : ofChars? (intText n.val) = some (.whole n) := by
  have digits : (natDigits n.val.natAbs).takeWhile Char.isDigit = natDigits n.val.natAbs :=
    List.takeWhile_eq_self_iff.2 fun c => isDigit_of_mem_natDigits
  have rest : (natDigits n.val.natAbs).dropWhile Char.isDigit = [] :=
    List.dropWhile_eq_nil_iff.2 fun c => isDigit_of_mem_natDigits
  have read := ofDigits?_natDigits (n := n)
  by_cases negative : n.val < 0
  · have sign : (('-' :: natDigits n.val.natAbs).head? == some '-') = true := rfl
    rw [decide_eq_true negative] at read
    rw [intText, if_pos negative, ofChars?]
    simp only [sign, if_true, List.drop_succ_cons, List.drop_zero, rest, digits, read]
  · have sign : ((natDigits n.val.natAbs).head? == some '-') = false := by
      cases first : natDigits n.val.natAbs with
      | nil => rfl
      | cons d ds =>
        have digit : d.isDigit = true := isDigit_of_mem_natDigits (n := n.val.natAbs) (first ▸ List.mem_cons_self)
        rw [List.head?_cons, beq_eq_false_iff_ne]
        rintro ⟨⟩
        exact absurd digit (by decide)
    rw [decide_eq_false negative] at read
    rw [intText, if_neg negative, ofChars?]
    simp only [sign, Bool.false_eq_true, if_false, rest, digits, read]

end Number

/-! ## Trees that decode -/

namespace Tree

mutual
/-- A tree decodes if all its strings and numbers do. -/
theorem Consists.exists_json? (t : Tree)
    (h : t.Consists (fun raw => (unescape? raw).isSome) fun text => (Number.ofChars? text).isSome) :
    ∃ j, t.json? = some j := by
  cases t with
  | null | bool => exact ⟨_, rfl⟩
  | number text =>
    obtain ⟨n, read⟩ := Option.isSome_iff_exists.1 h
    exact ⟨.number n, by rw [json?, read]; rfl⟩
  | string raw =>
    obtain ⟨s, read⟩ := Option.isSome_iff_exists.1 h
    exact ⟨.string s, by rw [json?, read]; rfl⟩
  | array items =>
    obtain ⟨js, read⟩ := ItemsConsist.exists_jsonItems? items h
    exact ⟨.array js, by rw [json?, read]; rfl⟩
  | object members =>
    obtain ⟨fields, read⟩ := MembersConsist.exists_jsonFields? members h []
    exact ⟨.object fields, by rw [json?, read]; rfl⟩

theorem ItemsConsist.exists_jsonItems? (items : List Tree)
    (h : ItemsConsist (fun raw => (unescape? raw).isSome) (fun text => (Number.ofChars? text).isSome) items) :
    ∃ js, jsonItems? items = some js := by
  match items with
  | [] => exact ⟨[], rfl⟩
  | t :: rest =>
    obtain ⟨j, read⟩ := Consists.exists_json? t h.1
    obtain ⟨js, others⟩ := ItemsConsist.exists_jsonItems? rest h.2
    exact ⟨j :: js, by rw [jsonItems?, read, others]; rfl⟩

theorem MembersConsist.exists_jsonFields? (members : List (List Char × Tree))
    (h : MembersConsist (fun raw => (unescape? raw).isSome) (fun text => (Number.ofChars? text).isSome) members)
    (before : Fields) : ∃ fields, jsonFields? before members = some fields := by
  match members with
  | [] => exact ⟨before, rfl⟩
  | (key, t) :: rest =>
    obtain ⟨k, named⟩ := Option.isSome_iff_exists.1 h.1
    obtain ⟨j, read⟩ := Consists.exists_json? t h.2.1
    obtain ⟨fields, others⟩ := MembersConsist.exists_jsonFields? rest h.2.2 (before.put k j)
    exact ⟨fields, by rw [jsonFields?, named, read]; exact others⟩
end

/-- Every number of the tree is a whole number of 64 bits, or its text reads back. -/
def DoublesRead (t : Tree) : Prop :=
  t.Consists (fun _ => True) fun text => (∃ n : Whole, text = Number.intText n.val) ∨ (Number.ofChars? text).isSome

/-- A written tree decodes if its doubles read back. -/
theorem IsWritten.exists_json? {t : Tree} (written : t.IsWritten) (reads : t.DoublesRead) : ∃ j, t.json? = some j := by
  refine Consists.exists_json? t (Consists.mono (fun raw h => ?_) (fun text h => ?_) t (Consists.and t written reads))
  · obtain ⟨⟨s, rfl⟩, -⟩ := h
    rw [unescape_escapeString]
    rfl
  · rcases h.2 with ⟨n, rfl⟩ | read
    · rw [Number.ofChars?_intText]
      rfl
    · exact read

/-! ## Depth -/

theorem depth_put (fields : Fields) (key : String) (v : Json) :
    membersDepth (Json.fieldTrees (fields.put key v)) ≤ max (membersDepth (Json.fieldTrees fields)) v.tree.depth := by
  induction fields with
  | nil => simp [Fields.put, Json.fieldTrees, membersDepth]
  | cons f rest ih =>
    obtain ⟨name, w⟩ := f
    rw [Fields.put]
    split
    · simp only [Json.fieldTrees, membersDepth]
      omega
    · simp only [Json.fieldTrees, membersDepth]
      omega

mutual
/-- Decoding makes nothing deeper. -/
theorem depth_of_json? (t : Tree) {j : Json} (read : t.json? = some j) : j.tree.depth ≤ t.depth := by
  cases t with
  | null | bool => cases read; exact Nat.le_refl _
  | number text =>
    obtain ⟨n, -, rfl⟩ := Option.map_eq_some_iff.1 read
    exact Nat.le_refl 0
  | string raw =>
    obtain ⟨s, -, rfl⟩ := Option.map_eq_some_iff.1 read
    exact Nat.le_refl 0
  | array items =>
    obtain ⟨js, all, rfl⟩ := Option.map_eq_some_iff.1 read
    have := depth_of_jsonItems? items all
    rw [Json.tree, depth, depth]
    omega
  | object members =>
    obtain ⟨fields, all, rfl⟩ := Option.map_eq_some_iff.1 read
    have := depth_of_jsonFields? members all
    rw [Json.fieldTrees, membersDepth] at this
    rw [Json.tree, depth, depth]
    omega

theorem depth_of_jsonItems? (items : List Tree) {js : List Json} (read : jsonItems? items = some js) :
    itemsDepth (Json.itemTrees js) ≤ itemsDepth items := by
  match items with
  | [] => cases read; exact Nat.le_refl _
  | t :: rest =>
    obtain ⟨j, first, read⟩ := Option.bind_eq_some_iff.1 read
    obtain ⟨others, later, rfl⟩ := Option.map_eq_some_iff.1 read
    have here := depth_of_json? t first
    have there := depth_of_jsonItems? rest later
    rw [Json.itemTrees, itemsDepth, itemsDepth]
    omega

theorem depth_of_jsonFields? (members : List (List Char × Tree)) {before fields : Fields}
    (read : jsonFields? before members = some fields) :
    membersDepth (Json.fieldTrees fields) ≤ max (membersDepth (Json.fieldTrees before)) (membersDepth members) := by
  match members with
  | [] => cases read; exact Nat.le_max_left _ _
  | (key, t) :: rest =>
    obtain ⟨k, -, read⟩ := Option.bind_eq_some_iff.1 read
    obtain ⟨j, first, read⟩ := Option.bind_eq_some_iff.1 read
    have here := depth_of_json? t first
    have there := depth_of_jsonFields? rest read
    have put := depth_put before k j
    rw [membersDepth]
    omega
end

end Tree

/-! ## Values that decode to themselves -/

namespace Json

mutual
/-- No doubles, and no object that repeats a key. -/
def isPlain : Json → Bool
  | .number (.real _) => false
  | .array items => itemsPlain items
  | .object fields => decide (Fields.keys fields).Nodup && fieldsPlain fields
  | _ => true

/-- All items are so. -/
def itemsPlain : List Json → Bool
  | [] => true
  | j :: rest => isPlain j && itemsPlain rest

/-- All values of the entries are so. -/
def fieldsPlain : List (String × Json) → Bool
  | [] => true
  | (_, j) :: rest => isPlain j && fieldsPlain rest
end

mutual
/-- Without doubles, and with no key twice, what was written is what is read. -/
theorem json?_tree (j : Json) (plain : j.isPlain = true) : j.tree.json? = some j := by
  cases j with
  | null | bool => rfl
  | number n =>
    cases n with
    | whole n => rw [tree, Number.chars, Tree.json?, Number.ofChars?_intText]; rfl
    | real x => cases plain
  | string s => rw [tree, Tree.json?, unescape_escapeString]; rfl
  | array items => rw [tree, Tree.json?, jsonItems?_itemTrees items plain]; rfl
  | object fields =>
    rw [isPlain, Bool.and_eq_true, decide_eq_true_eq] at plain
    rw [tree, Tree.json?, jsonFields?_fieldTrees fields plain.2 [] plain.1]
    rfl

theorem jsonItems?_itemTrees (items : List Json) (plain : itemsPlain items = true) :
    Tree.jsonItems? (itemTrees items) = some items := by
  match items with
  | [] => rfl
  | j :: rest =>
    rw [itemsPlain, Bool.and_eq_true] at plain
    rw [itemTrees, Tree.jsonItems?, json?_tree j plain.1, jsonItems?_itemTrees rest plain.2]
    rfl

theorem jsonFields?_fieldTrees (fields : Fields) (plain : fieldsPlain fields = true) (before : Fields)
    (distinct : (Fields.keys (before ++ fields)).Nodup) :
    Tree.jsonFields? before (fieldTrees fields) = some (before ++ fields) := by
  match fields with
  | [] => rw [fieldTrees, Tree.jsonFields?, List.append_nil]
  | (key, j) :: rest =>
    rw [fieldsPlain, Bool.and_eq_true] at plain
    have split : before ++ (key, j) :: rest = before ++ [(key, j)] ++ rest := by simp
    have new : key ∉ Fields.keys before := by
      rw [Fields.keys, List.map_append, List.nodup_append] at distinct
      exact fun mem => distinct.2.2 _ mem _ List.mem_cons_self rfl
    rw [fieldTrees, Tree.jsonFields?, unescape_escapeString, json?_tree j plain.1]
    simp only [Option.bind_some]
    rw [Fields.put_of_new new, jsonFields?_fieldTrees rest plain.2 _ (split ▸ distinct), split]
end

mutual
/-- Values without doubles have no infinite ones. -/
theorem isFinite_of_isPlain (j : Json) (plain : j.isPlain = true) : j.isFinite = true := by
  cases j with
  | null | bool | string => rfl
  | number n =>
    cases n with
    | whole n => rfl
    | real x => cases plain
  | array items => exact itemsFinite_of_itemsPlain items plain
  | object fields =>
    rw [isPlain, Bool.and_eq_true] at plain
    exact fieldsFinite_of_fieldsPlain fields plain.2

theorem itemsFinite_of_itemsPlain (items : List Json) (plain : itemsPlain items = true) : itemsFinite items = true := by
  match items with
  | [] => rfl
  | j :: rest =>
    rw [itemsPlain, Bool.and_eq_true] at plain
    rw [itemsFinite, isFinite_of_isPlain j plain.1, itemsFinite_of_itemsPlain rest plain.2]
    rfl

theorem fieldsFinite_of_fieldsPlain (fields : Fields) (plain : fieldsPlain fields = true) : fieldsFinite fields = true := by
  match fields with
  | [] => rfl
  | (key, j) :: rest =>
    rw [fieldsPlain, Bool.and_eq_true] at plain
    rw [fieldsFinite, isFinite_of_isPlain j plain.1, fieldsFinite_of_fieldsPlain rest plain.2]
    rfl
end

end Json

/-- A body that decodes decodes to an object. -/
theorem Body.decode_eq_ok {b : Body} {fields : Fields} (decoded : b.decode = .ok fields) :
    b.tree.decode? = some (.object fields) := by
  unfold decode at decoded
  split at decoded
  · rename_i found
    cases decoded
    exact found
  all_goals cases decoded

/-- A body that decodes is read as the document. -/
theorem Body.json?_of_decode {b : Body} {fields : Fields} (decoded : b.decode = .ok fields) : b.tree.json? = some (.object fields) := by
  have read := decode_eq_ok decoded
  unfold Tree.decode? at read
  split at read
  · exact read
  · cases read

/-- The body that stores the text of plain entries decodes to these entries, unless it is too deep. -/
theorem Body.decode_of_text {b : Body} {fields : Fields} (plain : (Json.object fields).isPlain = true)
    (text : b.text = (Json.object fields).text) (shallow : b.tree.depth ≤ Tree.decodeDepth) : b.decode = .ok fields := by
  have tree := tree_of_text (Json.isFinite_of_isPlain _ plain) text
  have read := Json.json?_tree _ plain
  rw [decode, Tree.decode?, if_pos shallow, tree, read]

end Dossier
