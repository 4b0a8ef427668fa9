import Mathlib
import Dossier.Proofs.Update.Distinct

/-!
# Equality of values

A value that repeats no key and holds finite doubles only is equal to itself (`Json.Proper.equal_self`). Two objects are equal
if they show the same at every path, be it nothing, an object or a value that is none (`Fields.equal_of_kindAt`): the order of
keys shows nowhere.
-/

namespace Dossier

namespace Number

theorem equal_self {n : Number} (finite : n.isFinite = true) : n.equal n = true := by
  cases n with
  | whole n => exact beq_self_eq_true n.val
  | real x =>
    refine Float.beq_self_iff.2 fun nan => ?_
    subst nan
    exact absurd finite (by decide)

theorem equal_self_of_add? {a b n : Number} (sum : a.add? b = some n) : n.equal n = true := by
  unfold add? at sum
  split at sum
  · split at sum
    · obtain ⟨w, -, rfl⟩ := Option.map_eq_some_iff.1 sum
      exact beq_self_eq_true w.val
    · cases sum
  · simp only at sum
    split at sum
    · rename_i finite
      cases sum
      refine Float.beq_self_iff.2 fun nan => ?_
      rw [nan] at finite
      exact absurd finite (by decide)
    · cases sum

end Number

namespace Json

/-- The value is one of a document: no object of it has two entries of one key, and all doubles in it are finite. -/
structure Proper (j : Json) : Prop where
  finite : j.isFinite = true
  distinct : j.tree.Distinct

theorem Proper.entry {fields : Fields} {e : String × Json} (proper : (object fields).Proper) (mem : e ∈ fields) : e.2.Proper :=
  ⟨fieldsFinite_iff.1 proper.finite e mem, distinct_entry proper.distinct mem⟩

theorem mem_itemTrees {items : List Json} {j : Json} (mem : j ∈ items) : j.tree ∈ itemTrees items := by
  induction items with
  | nil => cases mem
  | cons first rest ih =>
    rcases List.mem_cons.1 mem with rfl | later
    · exact List.mem_cons_self
    · exact List.mem_cons_of_mem _ (ih later)

theorem Proper.item {items : List Json} {j : Json} (proper : (array items).Proper) (mem : j ∈ items) : j.Proper :=
  ⟨itemsFinite_iff.1 proper.finite j mem, Tree.areDistinct_iff.1 proper.distinct _ (mem_itemTrees mem)⟩

end Json

namespace Fields

variable {fields other : Fields}

/-- The value of an entry is smaller than the entries. -/
theorem sizeOf_lt_of_mem {e : String × Json} (mem : e ∈ fields) : sizeOf e.2 < sizeOf fields := by
  have entry := List.sizeOf_lt_of_mem mem
  obtain ⟨key, value⟩ := e
  rw [Prod.mk.sizeOf_spec] at entry
  show sizeOf value < sizeOf fields
  omega

theorem get?_of_mem (distinct : fields.keys.Nodup) {key : String} {v : Json} (mem : (key, v) ∈ fields) :
    fields.get? key = some v := by
  induction fields with
  | nil => cases mem
  | cons e rest ih =>
    obtain ⟨k, w⟩ := e
    obtain ⟨first, others⟩ := List.nodup_cons.1 distinct
    rw [get?]
    rcases List.mem_cons.1 mem with eq | later
    · cases eq
      exact if_pos rfl
    · have other : k ≠ key := by
        rintro rfl
        exact first (List.mem_map.2 ⟨_, later, rfl⟩)
      rw [if_neg other]
      exact ih others later

/-- What shows at a place: nothing, an object, or a value that is none. -/
inductive Kind
  | nothing
  | object
  | value (v : Json)

/-- What shows where a value stands, or none does. -/
def Kind.of : Option Json → Kind
  | none => nothing
  | some (.object _) => object
  | some v => value v

theorem Kind.of_eq_object {o : Option Json} : Kind.of o = object ↔ ∃ inner, o = some (.object inner) := by
  cases o with
  | none => simp [Kind.of]
  | some j => cases j <;> simp [Kind.of]

theorem Kind.of_eq_nothing {o : Option Json} : Kind.of o = nothing ↔ o = none := by
  cases o with
  | none => simp [Kind.of]
  | some j => cases j <;> simp [Kind.of]

theorem Kind.of_eq_value {o : Option Json} {v : Json} (shown : Kind.of o = value v) : o = some v := by
  cases o with
  | none => cases shown
  | some j => cases j <;> cases shown <;> rfl

/-- What shows at a path. -/
def kindAt (path : List String) (fields : Fields) : Kind := .of (fields.getAt? path)

theorem kindAt_below {key : String} {inner : Fields} (found : fields.get? key = some (.object inner)) {path : List String}
    (ne : path ≠ []) : fields.kindAt (key :: path) = inner.kindAt path := by
  obtain ⟨s, rest, rfl⟩ := List.exists_cons_of_ne_nil ne
  rw [kindAt, getAt?_cons, inner?, found]
  rfl

end Fields

/-! ## Equal values -/

namespace Json

theorem equalItems_self {items : List Json} (each : ∀ j ∈ items, j.equal j = true) : equalItems items items = true := by
  induction items with
  | nil => rfl
  | cons j rest ih =>
    obtain ⟨first, others⟩ := List.forall_mem_cons.1 each
    rw [equalItems, first, ih others]
    rfl

theorem equal_object {fields other : Fields} (length : fields.length = other.length)
    (each : ∀ e ∈ fields, ∃ v, other.get? e.1 = some v ∧ e.2.equal v = true) : equal (object fields) (object other) = true := by
  rw [equal, within_iff.2 each, length, beq_self_eq_true]
  rfl

/-- A proper value is equal to itself. -/
theorem Proper.equal_self {j : Json} (proper : j.Proper) : j.equal j = true := by
  match j with
  | null => rfl
  | bool b => exact beq_self_eq_true b
  | number n => exact Number.equal_self proper.finite
  | string s => exact beq_self_eq_true s
  | array items => exact equalItems_self fun i mem => (proper.item mem).equal_self
  | object fields =>
    refine equal_object rfl fun e mem => ⟨e.2, Fields.get?_of_mem (nodup_keys proper.distinct) mem, ?_⟩
    exact (proper.entry mem).equal_self
termination_by sizeOf j
decreasing_by
  · have := List.sizeOf_lt_of_mem mem
    simp only [array.sizeOf_spec]
    omega
  · have := Fields.sizeOf_lt_of_mem mem
    simp only [object.sizeOf_spec]
    omega

end Json

/-- Objects that repeat no key are equal if they show the same at every path, each value that shows being equal to itself. -/
theorem Fields.equal_of_kindAt {fields other : Fields} (distinct : (Json.object fields).tree.Distinct)
    (distinct' : (Json.object other).tree.Distinct) (same : ∀ path ≠ [], fields.kindAt path = other.kindAt path)
    (self : ∀ path v, fields.kindAt path = .value v → v.equal v = true) : Json.equal (.object fields) (.object other) = true := by
  have nodup := Json.nodup_keys distinct
  have nodup' := Json.nodup_keys distinct'
  have there (fields : Fields) (key : String) : key ∈ fields.keys ↔ fields.kindAt [key] ≠ .nothing := by
    rw [kindAt, getAt?, ne_eq, Kind.of_eq_nothing, get?_eq_none, not_not]
  have keys : fields.keys.Perm other.keys := (List.perm_ext_iff_of_nodup nodup nodup').2 fun key => by
    rw [there, there, same [key] (List.cons_ne_nil key [])]
  refine Json.equal_object (by simpa [Fields.keys] using keys.length_eq) fun e mem => ?_
  obtain ⟨key, value⟩ := e
  have found := get?_of_mem nodup mem
  have shown : fields.kindAt [key] = .of (some value) := by rw [kindAt, getAt?, found]
  have shown' := (same [key] (List.cons_ne_nil key [])).symm.trans shown
  cases kind : Kind.of (some value) with
  | nothing => cases Kind.of_eq_nothing.1 kind
  | object =>
    obtain ⟨inner, eq⟩ := Kind.of_eq_object.1 kind
    obtain ⟨inner', found'⟩ := Kind.of_eq_object.1 (shown'.trans kind)
    obtain rfl := Option.some.inj eq
    refine ⟨_, found', equal_of_kindAt (Json.distinct_entry distinct mem) (Json.distinct_entry distinct' (mem_of_get? found'))
      (fun path ne => ?_) fun path v there => ?_⟩
    · rw [← kindAt_below found ne, ← kindAt_below found' ne]
      exact same _ (List.cons_ne_nil key path)
    · have ne : path ≠ [] := by
        rintro rfl
        cases there
      exact self (key :: path) v ((kindAt_below found ne).trans there)
  | value v =>
    obtain rfl := Option.some.inj (Kind.of_eq_value kind)
    exact ⟨_, Kind.of_eq_value (shown'.trans kind), self [key] _ (shown.trans kind)⟩
termination_by sizeOf fields
decreasing_by
  have := sizeOf_lt_of_mem mem
  simp only [Json.object.sizeOf_spec] at this
  omega

end Dossier
