import Dossier.Proofs.Filter.Selecting
import Mathlib.Data.List.Forall2

/-!
# The conditions of a filter

A filter asks for operators on fields. `Json.conditions` takes it apart: it has one filter for each operator on each field.
These are read as the parts of the filter (`Filter.mapM_parse_conditions`), the filter selects the rows that all of them select
(`Table.mem_select_iff`), and every arrangement of some of them as a filter is accepted (`Filter.exists_parse_of_subset`).
-/

namespace Dossier

open Outcome

namespace Json

/-- The operators that the value of a field asks for: those of an operator object, or the equality with the value. -/
def operators : Json → Fields
  | .object entries => if entries.any fun e => isOperatorKey e.1 then entries else [("$eq", .object entries)]
  | value => [("$eq", value)]

/-- The filters that ask for one operator on one field each. -/
def conditions : Json → List Json
  | .object entries => entries.flatMap fun e => e.2.operators.map fun o => asking e.1 [o]
  | _ => []

variable {field : String} {g : Json} {es : Fields}

theorem operators_ne_nil (value : Json) : value.operators ≠ [] := by
  cases value with
  | object entries =>
    by_cases asked : (entries.any fun e => isOperatorKey e.1) = true
    · rw [operators, if_pos asked]
      rintro rfl
      cases asked
    · rw [operators, if_neg asked]
      exact List.cons_ne_nil _ _
  | null | bool | number | string | array => exact List.cons_ne_nil _ _

theorem mem_conditions : g ∈ (object es).conditions ↔ ∃ e ∈ es, ∃ o ∈ e.2.operators, asking e.1 [o] = g := by
  simp [conditions]

theorem asking_inj {other : String} {o o' : String × Json} : asking field [o] = asking other [o'] ↔ field = other ∧ o = o' := by
  simp [asking]

end Json

/-! ## Reading -/

/-- The value of a field is accepted if all that it asks for are operators with their operands. -/
theorem Condition.parseAll_eq_ok_iff {field : String} {value : Json} {conditions : List Condition} :
    parseAll field value = .ok conditions ↔ (∀ o ∈ value.operators, isOperatorKey o.1 = true)
      ∧ value.operators.mapM (fun o => parse field o.1 o.2) = .ok conditions := by
  have equality (v : Json) : [("$eq", v)].mapM (fun o => parse field o.1 o.2) = .ok [.compare .eq v] := by
    cases v <;> rfl
  have key : isOperatorKey "$eq" = true := by decide
  cases value with
  | object entries =>
    simp only [parseAll, Json.operators]
    by_cases asked : (entries.any fun e => isOperatorKey e.1) = true
    · simp only [asked, if_true]
      by_cases all : (entries.all fun e => isOperatorKey e.1) = true
      · simp only [all, if_true]
        exact (and_iff_right (List.all_eq_true.1 all)).symm
      · simp only [all, Bool.false_eq_true, if_false]
        exact iff_of_false (by simp) fun h => all (List.all_eq_true.2 h.1)
    · simp only [asked, Bool.false_eq_true, if_false, equality, List.forall_mem_singleton, key, true_and]
  | null | bool | number | string | array =>
    simp only [parseAll, Json.operators, equality, List.forall_mem_singleton, key, true_and]

namespace Filter

variable {filter g : Json} {f : Filter} {field : String} {ref : FieldRef}

/-- The conditions of a filter, each as a filter of its own. -/
def parts (f : Filter) : List Filter :=
  f.clauses.flatMap fun clause => clause.conditions.map fun condition => .on clause.name clause.field [condition]

theorem mapM_parse_operators (accepted : FieldRef.parse field = .ok ref) {operators : Fields} {conditions : List Condition}
    (keys : ∀ o ∈ operators, isOperatorKey o.1 = true)
    (read : operators.mapM (fun o => Condition.parse field o.1 o.2) = .ok conditions) :
    (operators.map fun o => Json.asking field [o]).mapM parse
      = .ok (conditions.map fun condition => .on field ref [condition]) := by
  induction operators generalizing conditions with
  | nil =>
    cases read
    rfl
  | cons o operators ih =>
    obtain ⟨condition, rest, here, later, rfl⟩ := mapM_cons_eq_ok.1 read
    obtain ⟨key, keys⟩ := List.forall_mem_cons.1 keys
    exact mapM_cons_eq_ok.2 ⟨_, _, parse_operator accepted key here, ih keys later, rfl⟩

/-- The conditions of an accepted filter are accepted, and they are its parts. -/
theorem mapM_parse_conditions (parsed : parse filter = .ok f) : filter.conditions.mapM parse = .ok f.parts := by
  unfold parts
  rcases parse_eq_ok parsed with ⟨rfl, none_⟩ | ⟨entries, rfl, read⟩
  · rw [none_]
    rfl
  · rw [Json.conditions]
    generalize f.clauses = clauses at read
    clear parsed
    induction entries generalizing clauses with
    | nil =>
      cases read
      rfl
    | cons e entries ih =>
      obtain ⟨clause, rest, here, later, rfl⟩ := mapM_cons_eq_ok.1 read
      obtain ⟨name, known, conditions⟩ := Clause.parse_eq_ok here
      obtain ⟨keys, read⟩ := Condition.parseAll_eq_ok_iff.1 conditions
      rw [List.flatMap_cons, List.flatMap_cons, List.mapM_append, mapM_parse_operators known keys read, ok_bind, ih rest later, ok_bind,
        name]
      rfl

/-- A condition of an accepted filter asks for an operator that is known, on a field that is. -/
theorem exists_of_mem_conditions (parsed : parse filter = .ok f) (mem : g ∈ filter.conditions) :
    ∃ field o ref condition, g = .asking field [o] ∧ isOperatorKey o.1 = true ∧ FieldRef.parse field = .ok ref
      ∧ Condition.parse field o.1 o.2 = .ok condition := by
  rcases parse_eq_ok parsed with ⟨rfl, -⟩ | ⟨entries, rfl, read⟩
  · cases mem
  · obtain ⟨e, there, o, asked, rfl⟩ := Json.mem_conditions.1 mem
    obtain ⟨clause, -, here⟩ := exists_of_mem_mapM read there
    obtain ⟨-, known, conditions⟩ := Clause.parse_eq_ok here
    obtain ⟨keys, read⟩ := Condition.parseAll_eq_ok_iff.1 conditions
    obtain ⟨condition, -, parsed⟩ := exists_of_mem_mapM read asked
    exact ⟨e.1, o, clause.field, condition, rfl, keys o asked, known, parsed⟩

/-- A filter is accepted whose conditions are all conditions of a filter that is. -/
theorem exists_parse_of_subset (parsed : parse filter = .ok f) {es : Fields}
    (sub : (Json.object es).conditions ⊆ filter.conditions) : ∃ g, parse (.object es) = .ok g := by
  have clause : ∀ e ∈ es, ∃ clause, Clause.parse e.1 e.2 = .ok clause := by
    intro e there
    have known : ∀ o ∈ e.2.operators, ∃ ref condition, isOperatorKey o.1 = true ∧ FieldRef.parse e.1 = .ok ref
        ∧ Condition.parse e.1 o.1 o.2 = .ok condition := by
      intro o asked
      obtain ⟨field, o', ref, condition, same, key, known, read⟩ :=
        exists_of_mem_conditions parsed (sub (Json.mem_conditions.2 ⟨e, there, o, asked, rfl⟩))
      obtain ⟨rfl, rfl⟩ := Json.asking_inj.1 same
      exact ⟨ref, condition, key, known, read⟩
    obtain ⟨o, asked⟩ := List.exists_mem_of_ne_nil _ (Json.operators_ne_nil e.2)
    obtain ⟨ref, -, -, field, -⟩ := known o asked
    obtain ⟨conditions, read⟩ := exists_mapM (f := fun o : String × Json => Condition.parse e.1 o.1 o.2) fun o asked => by
      obtain ⟨-, condition, -, -, parsed⟩ := known o asked
      exact ⟨condition, parsed⟩
    have all := Condition.parseAll_eq_ok_iff.2 ⟨fun o asked => by
      obtain ⟨-, -, key, -⟩ := known o asked
      exact key, read⟩
    exact ⟨⟨e.1, ref, conditions⟩, by simp [Clause.parse, field, all]⟩
  obtain ⟨clauses, read⟩ := exists_mapM clause
  exact ⟨⟨clauses⟩, by simp [parse, read]⟩

/-! ## Selecting -/

/-- The terms of a filter are those of its parts. -/
theorem predicate_eq_parts (f : Filter) (r : Resolver) : f.predicate r = f.parts.flatMap fun part => part.predicate r := by
  simp [predicate, parts, on, List.flatMap_assoc, List.map_eq_flatMap]

/-- A filter with a part has a term. -/
theorem predicate_ne_nil {part : Filter} (there : part ∈ f.parts) (r : Resolver) : f.predicate r ≠ [] := by
  obtain ⟨clause, listed, mem⟩ := List.mem_flatMap.1 there
  obtain ⟨condition, asked, rfl⟩ := List.mem_map.1 mem
  exact List.ne_nil_of_mem (List.mem_flatMap.2 ⟨clause, listed, List.mem_map_of_mem asked⟩)

end Filter

/-- A filter selects the rows that each of its parts selects. -/
theorem Table.mem_select_iff {t : Table} {f : Filter} {resolver : Resolver} {r : Row} : r ∈ t.select (f.predicate resolver)
    ↔ r ∈ t.rows ∧ ∀ part ∈ f.parts, r ∈ t.select (part.predicate resolver) := by
  simp only [select, List.mem_filter, Predicate.isTrue_holds, f.predicate_eq_parts, List.all_flatMap, List.all_eq_true]
  exact and_congr_right fun mem => forall₂_congr fun _ _ => (and_iff_right mem).symm

/-! ## Arrangements -/

/-- The fields in another order, and on each field the operators in another order. -/
def Fields.Reorders (es es' : Fields) : Prop :=
  ∃ mid : Fields, es.Perm mid ∧ List.Forall₂ (fun e e' => e.1 = e'.1 ∧ e.2.operators.Perm e'.2.operators) mid es'

/-- Neither order changes the conditions. -/
theorem Fields.Reorders.conditions_perm {es es' : Fields} (h : es.Reorders es') :
    (Json.object es).conditions.Perm (Json.object es').conditions := by
  obtain ⟨mid, fields, operators⟩ := h
  refine (fields.flatMap_right _).trans ?_
  clear fields
  induction operators with
  | nil => exact .refl _
  | cons alike _ ih =>
    rw [List.flatMap_cons, Json.conditions, List.flatMap_cons, alike.1]
    exact (alike.2.map _).append ih

end Dossier
