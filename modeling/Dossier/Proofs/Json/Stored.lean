import Dossier.Database.Row
import Dossier.Proofs.Json.Reading

/-!
# Stored values

A document value without infinite doubles is written as a tree of the JSON grammar. `Body.tree_of_text`: the
tree of a body that holds the compact text of such a value is the tree of that value.
-/

namespace Dossier

open Decimal Text

/-- The number is whole or a finite double. -/
def Number.isFinite : Number → Bool
  | .whole _ => true
  | .real x => (Binary.ofFloat? x).isSome

namespace Json

mutual
/-- All doubles in the value are finite. -/
def isFinite : Json → Bool
  | .number n => n.isFinite
  | .array items => itemsFinite items
  | .object fields => fieldsFinite fields
  | _ => true

/-- All doubles in the items are finite. -/
def itemsFinite : List Json → Bool
  | [] => true
  | j :: rest => isFinite j && itemsFinite rest

/-- All doubles in the entries are finite. -/
def fieldsFinite : List (String × Json) → Bool
  | [] => true
  | (_, j) :: rest => isFinite j && fieldsFinite rest
end

end Json

theorem Number.isNumber_chars {n : Number} (finite : n.isFinite = true) : Tree.isNumber n.chars = true := by
  cases n with
  | whole n => exact isNumber_intText n.val
  | real x =>
    obtain ⟨b, hb⟩ := Option.isSome_iff_exists.1 finite
    simpa [chars, realText, hb] using isNumber_binaryText b

namespace Json

mutual
/-- Values without infinite doubles are written in the grammar. -/
theorem isGrammatical_tree (j : Json) (finite : j.isFinite = true) : j.tree.isGrammatical = true := by
  cases j with
  | null | bool => rfl
  | number n => exact Number.isNumber_chars finite
  | string s => exact isStringBody_escapeString s
  | array items => exact areGrammatical_itemTrees items finite
  | object fields => exact membersGrammatical_fieldTrees fields finite

theorem areGrammatical_itemTrees (items : List Json) (finite : itemsFinite items = true) :
    Tree.areGrammatical (itemTrees items) = true := by
  match items with
  | [] => rfl
  | j :: rest =>
    rw [itemsFinite, Bool.and_eq_true] at finite
    rw [itemTrees, Tree.areGrammatical, isGrammatical_tree j finite.1, areGrammatical_itemTrees rest finite.2]
    rfl

theorem membersGrammatical_fieldTrees (fields : List (String × Json)) (finite : fieldsFinite fields = true) :
    Tree.membersGrammatical (fieldTrees fields) = true := by
  match fields with
  | [] => rfl
  | (key, j) :: rest =>
    rw [fieldsFinite, Bool.and_eq_true] at finite
    rw [fieldTrees, Tree.membersGrammatical, isStringBody_escapeString, isGrammatical_tree j finite.1,
      membersGrammatical_fieldTrees rest finite.2]
    rfl
end

/-- The engine reads the text of a value as its tree, unless the value nests too deep. -/
theorem read?_text {j : Json} (finite : j.isFinite = true) :
    Tree.read? j.text = if j.tree.depth ≤ Tree.depthLimit then some j.tree else none :=
  Tree.read?_text _ (isGrammatical_tree j finite)

theorem fieldsFinite_iff {fields : Fields} : fieldsFinite fields = true ↔ ∀ e ∈ fields, e.2.isFinite = true := by
  induction fields with
  | nil => simp [fieldsFinite]
  | cons e rest ih => simp [fieldsFinite, ih]

theorem itemsFinite_iff {items : List Json} : itemsFinite items = true ↔ ∀ j ∈ items, j.isFinite = true := by
  induction items with
  | nil => simp [itemsFinite]
  | cons j rest ih => simp [itemsFinite, ih]

end Json

/-- The tree of a body is the tree of the value that it holds the text of. -/
theorem Body.tree_of_text {b : Body} {j : Json} (finite : j.isFinite = true) (stored : b.text = j.text) :
    b.tree = j.tree := by
  have reads := b.reads
  rw [stored, Json.read?_text finite] at reads
  split at reads
  · exact (Option.some.inj reads).symm
  · simp at reads

end Dossier
