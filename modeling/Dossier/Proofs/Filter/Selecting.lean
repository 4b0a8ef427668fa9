import Dossier.Database.Select
import Dossier.Filter.Basic
import Dossier.Proofs.Outcome
import Dossier.Store.Identifier

/-!
# What filters on one field select

What an accepted filter says of the JSON that it was read from: each clause comes from one entry, and each value that the
filter pins is the value of an entry, or an operand in it (`Filter.mem_equalities`).

A row is selected where each condition of the filter is true for it (`Predicate.isTrue_holds`). `Filter.parse_asking` reads an
operator object on one field, and `Table.mem_select_on` says which rows it selects. The sections after these are about lists
and identifiers.
-/

namespace Dossier

open Outcome

/-- The segments of an accepted body path are the parts of its text between the dots. -/
theorem FieldRef.segments_of_parse {field : String} {path : FieldPath} (h : parse field = .ok (.body path)) :
    path.segments = (splitDots field.toList).map String.ofList := by
  unfold parse at h
  split at h
  · cases h
  · obtain ⟨p, parsed, eq⟩ := map_eq_ok.1 h
    cases eq
    rw [← (FieldPath.parse_eq_ok_iff.1 parsed).1, path.splitDots_text]

namespace Clause

variable {name : String} {value : Json} {clause : Clause}

/-- The field and the conditions of a clause are read from its entry. -/
theorem parse_eq_ok (h : parse name value = .ok clause) : clause.name = name ∧ FieldRef.parse name = .ok clause.field
    ∧ Condition.parseAll name value = .ok clause.conditions := by
  obtain ⟨field, known, h⟩ := bind_eq_ok.1 h
  obtain ⟨conditions, read, eq⟩ := bind_eq_ok.1 h
  cases eq
  exact ⟨rfl, known, read⟩

end Clause

namespace Condition

variable {field : String} {value operand : Json} {conditions : List Condition}

/-- An equality is the operand of `$eq`. -/
theorem parse_equality {operator : String} (h : parse field operator value = .ok (.compare .eq operand)) :
    operator = "$eq" ∧ value = operand := by
  unfold parse at h
  split at h
  · rename_i op known
    split at h
    · cases h
      unfold comparison? at known
      split at known <;> first | exact ⟨rfl, rfl⟩ | cases known
    · cases h
  · split at h <;> cases h

/-- An equality among the conditions of a field is its value, or the operand of `$eq`. -/
theorem mem_parseAll (h : parseAll field value = .ok conditions) (mem : Condition.compare .eq operand ∈ conditions) :
    value = operand ∨ ∃ entries, value = .object entries ∧ ("$eq", operand) ∈ entries := by
  unfold parseAll at h
  split at h
  · rename_i entries
    split at h
    · split at h
      · obtain ⟨e, there, read⟩ := exists_of_mapM h mem
        obtain ⟨operator, rfl⟩ := parse_equality read
        exact .inr ⟨entries, rfl, operator ▸ there⟩
      · cases h
    · cases h
      cases List.mem_singleton.1 mem
      exact .inl rfl
  · cases h
    cases List.mem_singleton.1 mem
    exact .inl rfl

end Condition

namespace Filter

variable {filter : Json} {f : Filter}

/-- The clauses are read from the entries one by one; null has none. -/
theorem parse_eq_ok (h : parse filter = .ok f) : (filter = .null ∧ f.clauses = [])
    ∨ ∃ entries, filter = .object entries ∧ entries.mapM (fun e => Clause.parse e.1 e.2) = .ok f.clauses := by
  unfold parse at h
  split at h
  · cases h
    exact .inl ⟨rfl, rfl⟩
  · rename_i entries
    obtain ⟨clauses, read, eq⟩ := bind_eq_ok.1 h
    cases eq
    exact .inr ⟨entries, rfl, read⟩
  · cases h

/-- A pinned value is that of a clause with an equality. -/
theorem mem_equalities_iff {e : Clause × Json} :
    e ∈ f.equalities ↔ e.1 ∈ f.clauses ∧ Condition.compare .eq e.2 ∈ e.1.conditions := by
  obtain ⟨clause, operand⟩ := e
  simp only [equalities, List.mem_flatMap, List.mem_filterMap]
  constructor
  · rintro ⟨clause', there, condition, mem, eq⟩
    split at eq
    · cases eq
      exact ⟨there, mem⟩
    · cases eq
  · rintro ⟨there, mem⟩
    exact ⟨clause, there, _, mem, rfl⟩

/-- A pinned value is the value of an entry of the filter, or the operand of `$eq` in one. -/
theorem mem_equalities (h : parse filter = .ok f) {e : Clause × Json} (mem : e ∈ f.equalities) :
    ∃ entries name value, filter = .object entries ∧ (name, value) ∈ entries
      ∧ (value = e.2 ∨ ∃ operators, value = .object operators ∧ ("$eq", e.2) ∈ operators) := by
  obtain ⟨clause, pinned⟩ := mem_equalities_iff.1 mem
  rcases parse_eq_ok h with ⟨-, none_⟩ | ⟨entries, rfl, read⟩
  · rw [none_] at clause
    cases clause
  · obtain ⟨entry, there, parsed⟩ := exists_of_mapM read clause
    exact ⟨entries, entry.1, entry.2, rfl, there, Condition.mem_parseAll (Clause.parse_eq_ok parsed).2.2 pinned⟩

end Filter

/-! ## Conjunctions -/

namespace Truth

@[simp] theorem isTrue_some (b : Bool) : isTrue (some b) = b := by cases b <;> rfl

@[simp] theorem isTrue_none : isTrue none = false := rfl

theorem isTrue_and (a b : Truth) : (a.and b).isTrue = (a.isTrue && b.isTrue) := by
  rcases a with _ | _ | _ <;> rcases b with _ | _ | _ <;> rfl

theorem isTrue_or (a b : Truth) : (a.or b).isTrue = (a.isTrue || b.isTrue) := by
  rcases a with _ | _ | _ <;> rcases b with _ | _ | _ <;> rfl

/-- A disjunction is false where both sides are. -/
theorem isTrue_not_or (a b : Truth) : (a.or b).not.isTrue = (a.not.isTrue && b.not.isTrue) := by
  rcases a with _ | _ | _ <;> rcases b with _ | _ | _ <;> rfl

end Truth

/-- An integer of 64 signed bits is handed over as it is. -/
theorem Value.ofNumber_of_signed {n : Whole} (signed : n.isSigned = true) : Value.ofNumber (.whole n) = .integer n.val := by
  rw [ofNumber, Number.signed?, if_pos signed]

/-- A predicate is true where each of its terms is. -/
theorem Predicate.isTrue_holds (p : Predicate) (read : Operand → Value) :
    (p.holds read).isTrue = p.all fun term => (term.holds read).isTrue := by
  induction p with
  | nil => rfl
  | cons term rest ih =>
    rw [List.all_cons, ← ih]
    exact Truth.isTrue_and _ _

/-- The conditions on one field as a filter. -/
def Filter.on (field : String) (ref : FieldRef) (conditions : List Condition) : Filter := ⟨[⟨field, ref, conditions⟩]⟩

/-- The filter that asks for operators with their operands on one field. -/
def Json.asking (field : String) (operators : Fields) : Json := .object [(field, .object operators)]

section Asking

variable {field : String} {ref : FieldRef} {operators : Fields} {conditions : List Condition}

/-- Operators that are known are read one by one. -/
theorem Filter.parse_asking (accepted : FieldRef.parse field = .ok ref) (some_ : operators ≠ [])
    (keys : ∀ e ∈ operators, isOperatorKey e.1 = true)
    (read : operators.mapM (fun e => Condition.parse field e.1 e.2) = .ok conditions) :
    Filter.parse (.asking field operators) = .ok (.on field ref conditions) := by
  have any : operators.any (fun e => isOperatorKey e.1) = true := by
    obtain ⟨e, mem⟩ := List.exists_mem_of_ne_nil _ some_
    exact List.any_eq_true.2 ⟨e, mem, keys e mem⟩
  have conditions_ : Condition.parseAll field (.object operators) = .ok conditions := by
    simp only [Condition.parseAll, any, List.all_eq_true.2 keys, if_true, read]
  simp [Json.asking, Filter.parse, Clause.parse, accepted, conditions_, Filter.on]

/-- An operator that is known is read by itself. -/
theorem Filter.parse_operator {operator : String} {operand : Json} {condition : Condition}
    (accepted : FieldRef.parse field = .ok ref) (key : isOperatorKey operator = true)
    (read : Condition.parse field operator operand = .ok condition) :
    Filter.parse (.asking field [(operator, operand)]) = .ok (.on field ref [condition]) :=
  parse_asking accepted (List.cons_ne_nil _ _) (List.forall_mem_singleton.2 key)
    (mapM_cons_eq_ok.2 ⟨condition, [], read, rfl, rfl⟩)

/-- The conditions of the filter as terms. -/
theorem Filter.predicate_on (r : Resolver) :
    (Filter.on field ref conditions).predicate r = conditions.map (Condition.term (r.operand ref)) := by
  simp [Filter.on, Filter.predicate]

/-- The filter selects the rows for which each of its conditions is true. -/
theorem Table.mem_select_on {t : Table} {resolver : Resolver} {r : Row} :
    r ∈ t.select ((Filter.on field ref conditions).predicate resolver) ↔ r ∈ t.rows
      ∧ ∀ condition ∈ conditions, ((condition.term (resolver.operand ref)).holds r.read).isTrue = true := by
  rw [Table.select, List.mem_filter, Filter.predicate_on, Predicate.isTrue_holds, List.all_map, List.all_eq_true]
  rfl

end Asking

/-!
## Membership as a disjunction of equalities

`IN` is true where the equality with some value of the list is true, and `NOT IN` where all inequalities are
(`Value.isTrue_member`, `Value.isTrue_not_member`). A null in the list equals nothing and differs from nothing, while the
equality with null by itself is the test for null, so `Condition.isTrue_member` leaves the nulls of a list out and
`Condition.isTrue_notMember` is false as soon as there is one.
-/

namespace Value

variable (a : Affinity) (c : Collation) (x y : Value) (ys : List Value)

theorem test_ne : test .ne a c x y = (test .eq a c x y).not := by
  unfold test
  cases compare? a c x y <;> rfl

/-- No comparison with null is known. -/
theorem test_null (op : Comparison) : test op a c x null = none := by
  simp [test, compare?, isNull]

theorem isTrue_member : (member a c x ys).isTrue = ys.any fun y => (test .eq a c x y).isTrue := by
  induction ys with
  | nil => rfl
  | cons y rest ih =>
    rw [List.any_cons, ← ih]
    exact Truth.isTrue_or _ _

theorem isTrue_not_member : (member a c x ys).not.isTrue = ys.all fun y => (test .ne a c x y).isTrue := by
  induction ys with
  | nil => rfl
  | cons y rest ih =>
    rw [List.all_cons, ← ih, test_ne]
    exact Truth.isTrue_not_or _ _

end Value

namespace Condition

variable {read : Operand → Value} {x : Operand} {v : Json} {items : List Json}

/-- An equality with a value that is not null compares with it. -/
theorem term_eq (proper : v ≠ .null) : (Condition.compare .eq v).term x = .compare x .eq (.ofJson v) := by
  cases v with
  | null => exact absurd rfl proper
  | bool | number | string | array | object => rfl

theorem term_ne (proper : v ≠ .null) : (Condition.compare .ne v).term x = .compare x .ne (.ofJson v) := by
  cases v with
  | null => exact absurd rfl proper
  | bool | number | string | array | object => rfl

/-- One item of a list, as the list compares with it. -/
theorem isTrue_test_eq : (Value.test .eq x.affinity .binary (read x) (.ofJson v)).isTrue = true
    ↔ v ≠ .null ∧ (((Condition.compare .eq v).term x).holds read).isTrue = true := by
  by_cases null : v = .null
  · subst null
    rw [Value.ofJson, Value.test_null]
    simp
  · rw [term_eq null]
    exact (and_iff_right null).symm

theorem isTrue_test_ne : (Value.test .ne x.affinity .binary (read x) (.ofJson v)).isTrue = true
    ↔ v ≠ .null ∧ (((Condition.compare .ne v).term x).holds read).isTrue = true := by
  by_cases null : v = .null
  · subst null
    rw [Value.ofJson, Value.test_null]
    simp
  · rw [term_ne null]
    exact (and_iff_right null).symm

/-- Membership in a list is true where the equality with one of its values but null is. -/
theorem isTrue_member : (((Condition.member false items).term x).holds read).isTrue = true
    ↔ ∃ v ∈ items, v ≠ .null ∧ (((Condition.compare .eq v).term x).holds read).isTrue = true := by
  cases items with
  | nil => simp [term, Term.holds]
  | cons item rest =>
    show (Value.member x.affinity .binary (read x) ((item :: rest).map .ofJson)).isTrue = true ↔ _
    rw [Value.isTrue_member, List.any_map, List.any_eq_true]
    exact exists_congr fun v => and_congr_right fun _ => isTrue_test_eq

/-- Absence from a list is true where the list has no null and the inequalities with all of its values are. -/
theorem isTrue_notMember : (((Condition.member true items).term x).holds read).isTrue = true
    ↔ ∀ v ∈ items, v ≠ .null ∧ (((Condition.compare .ne v).term x).holds read).isTrue = true := by
  cases items with
  | nil => simp [term, Term.holds]
  | cons item rest =>
    show (Value.member x.affinity .binary (read x) ((item :: rest).map .ofJson)).not.isTrue = true ↔ _
    rw [Value.isTrue_not_member, List.all_map, List.all_eq_true]
    exact forall₂_congr fun v _ => isTrue_test_ne

end Condition

/-!
## Identifiers

A value that stands for an identifier is written into a row as a text (`identifierOf`), and a filter compares it there under
the affinity of texts. The two agree for texts and for integers of 64 signed bits (`Value.text?_ofJson`), so there the filter
selects the rows with that identifier (`Filter.isTrue_identifying`). A greater integer is compared as a double.
-/

namespace Value

theorem textOrder_eq_eq {as bs : List Char} : textOrder as bs = .eq ↔ as = bs := by
  induction as generalizing bs with
  | nil => cases bs <;> simp [textOrder]
  | cons a as ih =>
    cases bs with
    | nil => simp [textOrder]
    | cons b bs => rw [textOrder, Ordering.then_eq_eq, ih, Nat.compare_eq_eq, Char.toNat_inj, List.cons.injEq]

/-- A text is compared with the text of a value. -/
theorem test_text {v : Value} {written : String} (shown : v.text? = some written) (s : String) :
    test .eq .text .binary (text s) v = some (decide (s = written)) := by
  have form : v.toText = text written := by rw [toText, shown]
  have proper : v.isNull = false := by cases v <;> first | rfl | cases shown
  have ordered : compare? .text .binary (text s) v = some (textOrder s.toList written.toList) := by
    simp only [compare?, proper, align, form]
    rfl
  rw [test, ordered, Option.map_some, Option.some.injEq, Bool.eq_iff_iff, decide_eq_true_iff, ← String.toList_inj,
    ← textOrder_eq_eq]
  exact beq_iff_eq

end Value

/-- The filter for the document with an identifier, and how it is read. -/
def Json.identifying (value : Json) : Json := .object [("_id", value)]
def Filter.identifying (value : Json) : Filter := .on "_id" (.system .id) [.compare .eq value]

section Identifying

variable {value : Json} {id : String}

/-- Identifiers are texts that are not empty and whole numbers. -/
theorem identifierOf_eq_ok (named : identifierOf value = .ok id) : value = .string id
    ∨ ∃ n, value = .number (.whole n) ∧ id = String.ofList (Number.intText n.val) := by
  unfold identifierOf at named
  split at named
  · split at named
    · cases named
    · cases named
      exact .inl rfl
  · cases named
    exact .inr ⟨_, rfl, rfl⟩
  · cases named

theorem Filter.parse_identifying (named : identifierOf value = .ok id) :
    Filter.parse (.identifying value) = .ok (.identifying value) := by
  rcases identifierOf_eq_ok named with rfl | ⟨n, rfl, -⟩ <;> rfl

/-- A value that stands for an identifier is compared as it is written, unless it is an integer past 64 signed bits. -/
theorem Value.text?_ofJson (named : identifierOf value = .ok id)
    (signed : ∀ n, value = .number (.whole n) → n.isSigned = true) : (Value.ofJson value).text? = some id := by
  rcases identifierOf_eq_ok named with rfl | ⟨n, rfl, rfl⟩
  · rfl
  · have bound : Value.ofJson (.number (.whole n)) = .integer n.val := ofNumber_of_signed (signed n rfl)
    rw [bound]
    rfl

/-- The filter is true of the rows with the identifier. -/
theorem Filter.isTrue_identifying (named : identifierOf value = .ok id)
    (signed : ∀ n, value = .number (.whole n) → n.isSigned = true) (resolver : Resolver) (r : Row) :
    (((Filter.identifying value).predicate resolver).holds r.read).isTrue = decide (r.id = id) := by
  have term : Condition.term (.system .id) (.compare .eq value) = .compare (.system .id) .eq (.ofJson value) := by
    rcases identifierOf_eq_ok named with rfl | ⟨n, rfl, -⟩ <;> rfl
  have holds : Term.holds r.read (.compare (.system .id) .eq (.ofJson value)) = some (decide (r.id = id)) :=
    Value.test_text (Value.text?_ofJson named signed) r.id
  rw [Predicate.isTrue_holds, identifying, predicate_on, List.map_singleton, Resolver.operand, term, List.all_cons, List.all_nil,
    holds, Truth.isTrue_some, Bool.and_true]

end Identifying

end Dossier
