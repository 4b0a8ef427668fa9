import Dossier.Proofs.Json.Stored

/-!
# What written trees read as

`Tree.Consists S N`: the strings and keys of a tree are as `S` says and its numbers as `N` says. A written tree
(`Tree.IsWritten`) consists of escaped strings and of numerals, where a double that is not finite stands as `null`
in a number's place. `Tree.asRead` puts null there, and `Body.tree_eq_asRead` says that the tree of a stored text is
the written one up to this. The trees of all values are written, whatever doubles they hold.
-/

namespace Dossier

open Decimal Text

namespace Tree

mutual
/-- The strings and keys of the tree are as `S` says, and its numbers as `N` says. -/
def Consists (S N : List Char → Prop) : Tree → Prop
  | number text => N text
  | string raw => S raw
  | array items => ItemsConsist S N items
  | object members => MembersConsist S N members
  | _ => True

/-- All items are so. -/
def ItemsConsist (S N : List Char → Prop) : List Tree → Prop
  | [] => True
  | t :: rest => Consists S N t ∧ ItemsConsist S N rest

/-- All keys and values are so. -/
def MembersConsist (S N : List Char → Prop) : List (List Char × Tree) → Prop
  | [] => True
  | (key, t) :: rest => S key ∧ Consists S N t ∧ MembersConsist S N rest
end

variable {S S' N N' : List Char → Prop}

theorem membersConsist_iff {members : List (List Char × Tree)} :
    MembersConsist S N members ↔ ∀ m ∈ members, S m.1 ∧ m.2.Consists S N := by
  induction members with
  | nil => simp [MembersConsist]
  | cons m rest ih => simp [MembersConsist, ih, and_assoc]

mutual
theorem Consists.mono (strings : ∀ raw, S raw → S' raw) (numbers : ∀ text, N text → N' text) (t : Tree)
    (h : t.Consists S N) : t.Consists S' N' := by
  cases t with
  | null | bool => trivial
  | number text => exact numbers text h
  | string raw => exact strings raw h
  | array items => exact ItemsConsist.mono strings numbers items h
  | object members => exact MembersConsist.mono strings numbers members h

theorem ItemsConsist.mono (strings : ∀ raw, S raw → S' raw) (numbers : ∀ text, N text → N' text) (items : List Tree)
    (h : ItemsConsist S N items) : ItemsConsist S' N' items := by
  match items with
  | [] => trivial
  | t :: rest => exact ⟨Consists.mono strings numbers t h.1, ItemsConsist.mono strings numbers rest h.2⟩

theorem MembersConsist.mono (strings : ∀ raw, S raw → S' raw) (numbers : ∀ text, N text → N' text)
    (members : List (List Char × Tree)) (h : MembersConsist S N members) : MembersConsist S' N' members := by
  match members with
  | [] => trivial
  | (key, t) :: rest =>
    exact ⟨strings key h.1, Consists.mono strings numbers t h.2.1, MembersConsist.mono strings numbers rest h.2.2⟩
end

mutual
theorem Consists.and (t : Tree) (h : t.Consists S N) (h' : t.Consists S' N') :
    t.Consists (fun raw => S raw ∧ S' raw) fun text => N text ∧ N' text := by
  cases t with
  | null | bool => trivial
  | number text => exact ⟨h, h'⟩
  | string raw => exact ⟨h, h'⟩
  | array items => exact ItemsConsist.and items h h'
  | object members => exact MembersConsist.and members h h'

theorem ItemsConsist.and (items : List Tree) (h : ItemsConsist S N items) (h' : ItemsConsist S' N' items) :
    ItemsConsist (fun raw => S raw ∧ S' raw) (fun text => N text ∧ N' text) items := by
  match items with
  | [] => trivial
  | t :: rest => exact ⟨Consists.and t h.1 h'.1, ItemsConsist.and rest h.2 h'.2⟩

theorem MembersConsist.and (members : List (List Char × Tree)) (h : MembersConsist S N members)
    (h' : MembersConsist S' N' members) : MembersConsist (fun raw => S raw ∧ S' raw) (fun text => N text ∧ N' text) members := by
  match members with
  | [] => trivial
  | (key, t) :: rest => exact ⟨⟨h.1, h'.1⟩, Consists.and t h.2.1 h'.2.1, MembersConsist.and rest h.2.2 h'.2.2⟩
end

mutual
/-- A tree of grammatical strings and numbers is of the grammar. -/
theorem Consists.isGrammatical (t : Tree) (h : t.Consists (isStringBody · = true) (isNumber · = true)) :
    t.isGrammatical = true := by
  cases t with
  | null | bool => rfl
  | number text => exact h
  | string raw => exact h
  | array items => exact ItemsConsist.areGrammatical items h
  | object members => exact MembersConsist.membersGrammatical members h

theorem ItemsConsist.areGrammatical (items : List Tree) (h : ItemsConsist (isStringBody · = true) (isNumber · = true) items) :
    Tree.areGrammatical items = true := by
  match items with
  | [] => rfl
  | t :: rest =>
    rw [Tree.areGrammatical, Consists.isGrammatical t h.1, ItemsConsist.areGrammatical rest h.2]
    rfl

theorem MembersConsist.membersGrammatical (members : List (List Char × Tree))
    (h : MembersConsist (isStringBody · = true) (isNumber · = true) members) : Tree.membersGrammatical members = true := by
  match members with
  | [] => rfl
  | (key, t) :: rest =>
    rw [Tree.membersGrammatical, h.1, Consists.isGrammatical t h.2.1, MembersConsist.membersGrammatical rest h.2.2]
    rfl
end

/-! ## Null in the place of a number -/

mutual
/-- The tree with null where a number's text says so. -/
def asRead : Tree → Tree
  | number text => if text = "null".toList then null else number text
  | array items => array (itemsAsRead items)
  | object members => object (membersAsRead members)
  | t => t

/-- The items one by one. -/
def itemsAsRead : List Tree → List Tree
  | [] => []
  | t :: rest => asRead t :: itemsAsRead rest

/-- The members one by one. -/
def membersAsRead : List (List Char × Tree) → List (List Char × Tree)
  | [] => []
  | (key, t) :: rest => (key, asRead t) :: membersAsRead rest
end

theorem membersAsRead_eq (members : List (List Char × Tree)) :
    membersAsRead members = members.map fun m => (m.1, m.2.asRead) := by
  induction members with
  | nil => rfl
  | cons m rest ih => rw [membersAsRead, ih]; rfl

/-! ## The text -/

mutual
theorem chars_asRead (t : Tree) : t.asRead.chars = t.chars := by
  cases t with
  | null | bool | string => rfl
  | number text =>
    rw [asRead]
    split
    · rename_i same
      rw [same]
      rfl
    · rfl
  | array items => rw [asRead, chars, chars, itemChars_asRead items]
  | object members => rw [asRead, chars, chars, memberChars_asRead members]

theorem itemChars_asRead (items : List Tree) : itemChars (itemsAsRead items) = itemChars items := by
  match items with
  | [] => rfl
  | [t] => simp only [itemsAsRead, itemChars, chars_asRead t]
  | t :: u :: rest =>
    have later := itemChars_asRead (u :: rest)
    simp only [itemsAsRead, itemChars, chars_asRead t] at later ⊢
    rw [later]

theorem memberChars_asRead (members : List (List Char × Tree)) :
    memberChars (membersAsRead members) = memberChars members := by
  match members with
  | [] => rfl
  | [(key, t)] => simp only [membersAsRead, memberChars, chars_asRead t]
  | (key, t) :: (other, u) :: rest =>
    have later := memberChars_asRead ((other, u) :: rest)
    simp only [membersAsRead, memberChars, chars_asRead t] at later ⊢
    rw [later]
end

mutual
theorem depth_asRead (t : Tree) : t.asRead.depth = t.depth := by
  cases t with
  | null | bool | string => rfl
  | number text =>
    rw [asRead]
    split <;> rfl
  | array items => rw [asRead, depth, depth, itemsDepth_asRead items]
  | object members => rw [asRead, depth, depth, membersDepth_asRead members]

theorem itemsDepth_asRead (items : List Tree) : itemsDepth (itemsAsRead items) = itemsDepth items := by
  match items with
  | [] => rfl
  | t :: rest => rw [itemsAsRead, itemsDepth, itemsDepth, depth_asRead t, itemsDepth_asRead rest]

theorem membersDepth_asRead (members : List (List Char × Tree)) : membersDepth (membersAsRead members) = membersDepth members := by
  match members with
  | [] => rfl
  | (key, t) :: rest => rw [membersAsRead, membersDepth, membersDepth, depth_asRead t, membersDepth_asRead rest]
end

mutual
theorem Consists.asRead (t : Tree) (h : t.Consists S N) : t.asRead.Consists S fun text => N text ∧ text ≠ "null".toList := by
  cases t with
  | null | bool => trivial
  | string raw => exact h
  | number text =>
    rw [Tree.asRead]
    split
    · trivial
    · exact ⟨h, ‹_›⟩
  | array items => exact ItemsConsist.asRead items h
  | object members => exact MembersConsist.asRead members h

theorem ItemsConsist.asRead (items : List Tree) (h : ItemsConsist S N items) :
    ItemsConsist S (fun text => N text ∧ text ≠ "null".toList) (itemsAsRead items) := by
  match items with
  | [] => trivial
  | t :: rest => exact ⟨Consists.asRead t h.1, ItemsConsist.asRead rest h.2⟩

theorem MembersConsist.asRead (members : List (List Char × Tree)) (h : MembersConsist S N members) :
    MembersConsist S (fun text => N text ∧ text ≠ "null".toList) (membersAsRead members) := by
  match members with
  | [] => trivial
  | (key, t) :: rest => exact ⟨h.1, Consists.asRead t h.2.1, MembersConsist.asRead rest h.2.2⟩
end

/-! ## What the store writes -/

/-- A string between its quotes as it is written. -/
def IsEscaped (raw : List Char) : Prop := ∃ s : String, raw = escapeString s

/-- A number as the store or the engine writes it. -/
def IsNumeral (text : List Char) : Prop := (∃ n : Number, text = n.chars) ∨ ∃ x : Float, ofValue (.real x) = number text

/-- The strings and numbers of the tree are as they are written. -/
def IsWritten (t : Tree) : Prop := t.Consists IsEscaped IsNumeral

theorem IsEscaped.isStringBody {raw : List Char} (h : IsEscaped raw) : isStringBody raw = true := by
  obtain ⟨s, rfl⟩ := h
  exact isStringBody_escapeString s

/-- A numeral is of the grammar, but for a double that is not finite. -/
theorem IsNumeral.isNumber {text : List Char} (h : IsNumeral text) (proper : text ≠ "null".toList) : isNumber text = true := by
  rcases h with ⟨n, rfl⟩ | ⟨x, eq⟩
  · cases n with
    | whole n => exact isNumber_intText n.val
    | real x =>
      cases finite : Binary.ofFloat? x with
      | none => simp [Number.chars, Number.realText, finite] at proper
      | some b => simpa [Number.chars, Number.realText, finite] using isNumber_binaryText b
  · rw [ofValue] at eq
    split at eq
    · cases eq
      exact isNumber_valueText _
    · obtain rfl := Tree.number.inj eq
      split <;> decide

theorem isWritten_ofValue {v : Value} (fits : ∀ n, v = .integer n → Value.fits n = true) : (ofValue v).IsWritten := by
  cases v with
  | null => trivial
  | integer n =>
    have bounds := fits n rfl
    simp only [Value.fits, Bool.and_eq_true, decide_eq_true_eq] at bounds
    exact .inl ⟨.whole ⟨n, bounds.1, by omega⟩, rfl⟩
  | text s => exact ⟨s, rfl⟩
  | real x =>
    have numeral : ∀ text, ofValue (.real x) = number text → (number text).IsWritten := fun text eq => .inr ⟨_, eq⟩
    cases finite : Decimal.Binary.ofFloat? x with
    | some b =>
      have text : ofValue (.real x) = number (Value.binaryText b) := by rw [ofValue, finite]
      exact text ▸ numeral _ text
    | none =>
      have text : ofValue (.real x) = number (if 0.0 < x then "9e999".toList else "-9e999".toList) := by rw [ofValue, finite]
      exact text ▸ numeral _ text

theorem IsWritten.asRead {t : Tree} (h : t.IsWritten) : t.asRead.IsWritten :=
  Consists.mono (fun _ h => h) (fun _ h => h.1) _ (Consists.asRead t h)

/-- What is written is of the grammar once it is read. -/
theorem IsWritten.isGrammatical {t : Tree} (h : t.IsWritten) : t.asRead.isGrammatical = true :=
  Consists.isGrammatical _ (Consists.mono (fun _ h => h.isStringBody) (fun _ h => h.1.isNumber h.2) _ (Consists.asRead t h))

end Tree

/-- Integers that the engine adds up fit in 64 bits. -/
theorem Value.fits_of_add {x y : Value} {n : Int} (sum : add x y = .integer n) : fits n = true := by
  have rounded : ∀ z : Float, ofFloat z ≠ .integer n := by
    intro z eq
    unfold ofFloat at eq
    split at eq <;> cases eq
  unfold add arithmetic at sum
  split at sum
  · cases sum
  · cases sum
  · split at sum
    · cases sum
      assumption
    · exact absurd sum (rounded _)
  · exact absurd sum (rounded _)

/-- A stored text that was written from a tree reads as that tree, and it does not nest too deep. -/
theorem Body.tree_eq_asRead {b : Body} {t : Tree} (written : t.IsWritten) (text : b.text = t.text) :
    b.tree = t.asRead ∧ t.depth ≤ Tree.depthLimit := by
  have reads := b.reads
  have same : t.text = t.asRead.text := by rw [Tree.text, Tree.text, Tree.chars_asRead]
  rw [text, same, Tree.read?_text _ written.isGrammatical, Tree.depth_asRead] at reads
  split at reads
  · exact ⟨(Option.some.inj reads).symm, ‹_›⟩
  · cases reads

mutual
/-- The tree of a value consists of its strings and numbers. -/
theorem Json.consists_tree (j : Json) : j.tree.Consists Tree.IsEscaped fun text => ∃ n : Number, text = n.chars := by
  cases j with
  | null | bool => trivial
  | number n => exact ⟨n, rfl⟩
  | string s => exact ⟨s, rfl⟩
  | array items => exact consists_itemTrees items
  | object fields => exact consists_fieldTrees fields

theorem Json.consists_itemTrees (items : List Json) :
    Tree.ItemsConsist Tree.IsEscaped (fun text => ∃ n : Number, text = n.chars) (itemTrees items) := by
  match items with
  | [] => trivial
  | j :: rest => exact ⟨consists_tree j, consists_itemTrees rest⟩

theorem Json.consists_fieldTrees (fields : List (String × Json)) :
    Tree.MembersConsist Tree.IsEscaped (fun text => ∃ n : Number, text = n.chars) (fieldTrees fields) := by
  match fields with
  | [] => trivial
  | (key, j) :: rest => exact ⟨⟨key, rfl⟩, consists_tree j, consists_fieldTrees rest⟩
end

theorem Json.isWritten_tree (j : Json) : j.tree.IsWritten :=
  Tree.Consists.mono (fun _ h => h) (fun _ h => .inl h) _ j.consists_tree

end Dossier
