import Mathlib.Data.List.Perm.Basic
import Dossier.Proofs.Outcome
import Dossier.Proofs.Update.Place

/-!
# Runs of changes

The paths of an accepted update are apart from each other, so every change meets the body at its own path as
it was before the first change. `Update.apply_change` therefore reads a run off the body it starts from: the
first change that this body keeps from being made fails the update, and if there is none, all are made.
-/

namespace Dossier

namespace Step

/-- The path that the change is about. -/
def path : Step → FieldPath
  | unset path | set path _ | increment path _ => path

/-- Why the change cannot be made on a body, if it cannot. -/
def fault? (s : Step) (fields : Fields) : Option ApplyError :=
  match s.apply fields with
  | .ok _ => none
  | .error e => some e

/-- What an increment writes, read off the body the run starts from. -/
def sum (origin : Fields) (path : FieldPath) (delta : Number) : Json :=
  match incremented path delta (origin.getAt? path.segments) with
  | .ok v => v
  | .error _ => .null

/-- Makes the change, a sum being taken over the body that the run starts from. -/
def make (origin : Fields) : Step → Fields → Fields
  | unset path, fields => fields.eraseAt path.segments
  | set path v, fields => fields.putAt v path.segments
  | increment path delta, fields => fields.putAt (sum origin path delta) path.segments

theorem fault?_set (path : FieldPath) (v : Json) (fields : Fields) :
    (set path v).fault? fields = (fields.blocker? path.segments).map (.notAContainer path.text) := by
  rw [fault?, apply, Fields.setAt, Fields.writeAt_eq _ _ path.nonempty]
  cases fields.blocker? path.segments <;> rfl

theorem fault?_increment (path : FieldPath) (delta : Number) (fields : Fields) :
    (increment path delta).fault? fields = match fields.blocker? path.segments with
      | some s => some (.notAContainer path.text s)
      | none => match incremented path delta (fields.getAt? path.segments) with
        | .ok _ => none
        | .error e => some e := by
  rw [fault?, apply, Fields.writeAt_eq _ _ path.nonempty]
  cases fields.blocker? path.segments with
  | some s => rfl
  | none => cases incremented path delta (fields.getAt? path.segments) <;> rfl

theorem apply_eq (s : Step) (fields : Fields) : s.apply fields = match s.fault? fields with
    | some e => .error e
    | none => .ok (s.make fields fields) := by
  cases s with
  | unset path => rfl
  | set path v =>
    rw [fault?_set, apply, Fields.setAt, Fields.writeAt_eq _ _ path.nonempty]
    cases fields.blocker? path.segments <;> rfl
  | increment path delta =>
    rw [fault?_increment, apply, Fields.writeAt_eq _ _ path.nonempty]
    cases fields.blocker? path.segments with
    | some s => rfl
    | none =>
      rw [make, sum]
      cases incremented path delta (fields.getAt? path.segments) <;> rfl

section
variable {s : Step} {a b : Fields} (same : Fields.SameAt s.path.segments a b)
include same

theorem fault?_congr : s.fault? a = s.fault? b := by
  cases s with
  | unset path => rfl
  | set path v =>
    have stands : a.blocker? path.segments = b.blocker? path.segments := same.2
    rw [fault?_set, fault?_set, stands]
  | increment path delta =>
    obtain ⟨holds, stands⟩ : a.getAt? path.segments = b.getAt? path.segments
      ∧ a.blocker? path.segments = b.blocker? path.segments := same
    rw [fault?_increment, fault?_increment, holds, stands]

theorem make_congr (fields : Fields) : s.make a fields = s.make b fields := by
  cases s with
  | unset path => rfl
  | set path v => rfl
  | increment path delta =>
    have holds : a.getAt? path.segments = b.getAt? path.segments := same.1
    rw [make, make, sum, sum, holds]

end

theorem sameAt_make {s : Step} {q : List String} (apart : Apart s.path.segments q) (origin fields : Fields) :
    Fields.SameAt q (s.make origin fields) fields := by
  cases s with
  | unset path => exact Fields.sameAt_eraseAt apart fields
  | set path v => exact Fields.sameAt_putAt apart v fields
  | increment path delta => exact Fields.sameAt_putAt apart _ fields

/-- The paths of the changes are apart from each other. -/
def ApartFrom (s t : Step) : Prop := Apart s.path.segments t.path.segments

/-- A run of changes at paths apart from each other: it fails with the first fault that the body it starts
from shows, or makes all of them. -/
theorem run_eq {steps : List Step} (apart : steps.Pairwise ApartFrom) (origin fields : Fields)
    (same : ∀ s ∈ steps, Fields.SameAt s.path.segments fields origin) :
    match steps.findSome? (fault? · origin) with
      | some e => (run steps fields).2 = some e
      | none => run steps fields = (steps.foldl (fun body s => s.make origin body) fields, none) := by
  induction steps generalizing fields with
  | nil => rfl
  | cons s rest ih =>
    obtain ⟨first, others⟩ := List.pairwise_cons.1 apart
    have here := same s List.mem_cons_self
    rw [List.findSome?_cons, ← fault?_congr here, run, apply_eq]
    cases s.fault? fields with
    | some e => rfl
    | none =>
      have later : ∀ t ∈ rest, Fields.SameAt t.path.segments (s.make fields fields) origin := fun t ht =>
        have kept := sameAt_make (first t ht) fields fields
        have old := same t (List.mem_cons_of_mem _ ht)
        ⟨kept.1.trans old.1, kept.2.trans old.2⟩
      simp only [List.foldl_cons, ← make_congr here]
      exact ih others _ later

end Step

namespace Changes

theorem conflict?_eq_none {paths : List FieldPath} (h : conflict? paths = Option.none) :
    paths.Pairwise fun p q => p.overlaps q = false := by
  induction paths with
  | nil => exact .nil
  | cons p rest ih =>
    rw [conflict?] at h
    cases found : rest.find? p.overlaps with
    | some q => simp [found] at h
    | none =>
      rw [found] at h
      exact .cons (by simpa using found) (ih h)

theorem conflict?_of_pairwise {paths : List FieldPath} (apart : paths.Pairwise fun p q => p.overlaps q = false) :
    conflict? paths = Option.none := by
  induction apart with
  | nil => rfl
  | cons first _ ih =>
    rw [conflict?, List.find?_eq_none.2 fun q mem => by simp [first q mem]]
    exact ih

theorem steps_perm (c : Changes) : (c.steps.map Step.path).Perm c.paths := by
  have eq : c.steps.map Step.path = c.unset ++ c.set.map (·.1) ++ c.inc.map (·.1) := by
    simp [steps, Function.comp_def, Step.path]
  rw [eq, paths]
  exact List.perm_append_comm.append_right _

theorem steps_apart {c : Changes} (h : conflict? c.paths = Option.none) : c.steps.Pairwise Step.ApartFrom := by
  have listed : c.paths.Pairwise fun p q => Apart p.segments q.segments :=
    (conflict?_eq_none h).imp FieldPath.apart_of_overlaps
  have ordered := c.steps_perm.symm.pairwise listed Apart.symm
  rw [List.pairwise_map] at ordered
  exact ordered

end Changes

namespace Update

/-- An accepted update at paths has some path, and no two of its paths overlap. -/
theorem parse_change {u : Json} {c : Changes} (h : parse u = .ok (.change c)) :
    Changes.conflict? c.paths = none ∧ c.isEmpty = false := by
  have operators : ∀ fields, (parseOperators fields).map Update.change = .ok (.change c) →
      Changes.conflict? c.paths = none ∧ c.isEmpty = false := by
    intro fields ok
    unfold parseOperators at ok
    cases read : fields.foldlM addOperator .none with
    | error e => simp [read] at ok
    | ok changes =>
      cases empty : changes.isEmpty with
      | true => simp [read, empty] at ok
      | false =>
        cases clash : Changes.conflict? changes.paths with
        | some p => simp [read, empty, clash] at ok
        | none =>
          obtain rfl : changes = c := by simpa [read, empty, clash] using ok
          exact ⟨clash, empty⟩
  unfold parse at h
  split at h
  · split at h
    · simp at h
    · split at h
      · split at h
        · exact operators _ h
        · simp at h
      · split at h <;> simp at h
  · simp at h

/-- An accepted update fails with the first fault that the body shows, or makes all its changes. -/
theorem apply_change {c : Changes} (h : Changes.conflict? c.paths = none) (fields : Fields) :
    (change c).apply fields = match c.steps.findSome? (Step.fault? · fields) with
      | some e => .error e
      | none => .ok (c.steps.foldl (fun body s => s.make fields body) fields) := by
  have run := Step.run_eq (Changes.steps_apart h) fields fields fun _ _ => ⟨rfl, rfl⟩
  rw [apply, Update.run]
  cases faults : c.steps.findSome? (Step.fault? · fields) with
  | some e =>
    rw [faults] at run
    cases made : Step.run c.steps fields with
    | mk body outcome => simp_all
  | none =>
    rw [faults] at run
    simp [run]

end Update

end Dossier
