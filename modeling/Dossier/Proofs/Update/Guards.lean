import Dossier.Proofs.Update.Mirror
import Dossier.Proofs.Update.Steps
import Dossier.Update.InPlace

/-!
# Guards and faults

The guards of an update look only at the body as it is. `Step.guards_eq`: the first guard of a change that
holds of a body names the fault of the change, as long as the engine and the store take the sum of an
increment alike (`Step.Alike`). `Changes.edit_eq`: where no guard holds, the engine makes the body that the
run of the changes makes.
-/

namespace Dossier

/-! ## What stands in the way -/

namespace Fields

/-- A value that is no object stands at the path. -/
def obstructed (fields : Fields) (path : List String) : Bool :=
  (fields.getAt? path).any fun v => !v.isObject

/-- What stands in the way of a path stands at one of its beginnings. -/
theorem blocker?_eq_findSome? (segments : List String) (fields : Fields) :
    blocker? segments fields = (List.range (segments.length - 1)).findSome? fun i =>
      if fields.obstructed (segments.take (i + 1)) then (segments.take (i + 1)).getLast? else none := by
  match segments with
  | [] => rfl
  | [_] => rfl
  | s :: t :: rest =>
    have ih := fun inner => blocker?_eq_findSome? (t :: rest) inner
    have split : (s :: t :: rest).length - 1 = (t :: rest).length - 1 + 1 := by simp
    rw [blocker?_cons, split, List.range_succ_eq_map, List.findSome?_cons, List.findSome?_map]
    have below : ∀ i, (if fields.obstructed ((s :: t :: rest).take (i + 1 + 1))
          then ((s :: t :: rest).take (i + 1 + 1)).getLast? else none)
        = (fields.inner? s).bind fun inner =>
          if obstructed inner ((t :: rest).take (i + 1)) then ((t :: rest).take (i + 1)).getLast? else none := by
      intro i
      rw [List.take_succ_cons, List.take_succ_cons, obstructed, getAt?_cons, List.getLast?_cons_cons]
      cases fields.inner? s with
      | none => simp
      | some inner => rfl
    simp only [Function.comp_def, Nat.succ_eq_add_one, below]
    have first : fields.obstructed ((s :: t :: rest).take (0 + 1)) = (fields.inner? s).isNone := by
      simp only [obstructed, List.take_succ_cons, List.take_zero, getAt?, inner?]
      cases fields.get? s with
      | none => rfl
      | some j => cases j <;> rfl
    rw [first]
    cases fields.inner? s with
    | none => simp
    | some inner => simp [ih inner]

end Fields

namespace Guard

/-- The error of a guard that holds of a body. -/
def complaint? (body : Tree) (g : Guard) : Option ApplyError :=
  if (g.holds body).isTrue then some g.failure else none

theorem find?_map_failure (body : Tree) (guards : List Guard) :
    (guards.find? fun g => (g.holds body).isTrue).map failure = guards.findSome? (complaint? body) := by
  induction guards with
  | nil => rfl
  | cons g rest ih => cases h : (g.holds body).isTrue <;> simp [complaint?, h, ih]

end Guard

theorem Json.typeName_tree_object (j : Json) : (j.tree.typeName != "object") = !j.isObject := by
  cases j with
  | bool b => cases b <;> rfl
  | number n => cases h : Tree.isWholeText n.chars <;> simp [tree, Tree.typeName, h, isObject]
  | null | string | array | object => rfl

/-- The guards of a path find what stands in its way. -/
theorem FieldPath.containerGuards_eq (p : FieldPath) (fields : Fields) :
    p.containerGuards.findSome? (Guard.complaint? (Json.object fields).tree)
      = (fields.blocker? p.segments).map (.notAContainer p.text) := by
  rw [containerGuards, ancestors, List.map_map, List.findSome?_map, Fields.blocker?_eq_findSome?,
    List.map_findSome?]
  have each : ∀ i, Guard.complaint? (Json.object fields).tree (.notAContainer p (p.upTo i))
      = (if fields.obstructed (p.segments.take (i + 1)) then (p.segments.take (i + 1)).getLast? else none).map
        (.notAContainer p.text) := by
    intro i
    have ne := (p.upTo i).nonempty
    have last : (p.segments.take (i + 1)).getLast? = some (p.upTo i).leaf := List.getLast?_eq_some_getLast ne
    have truth : ((Guard.notAContainer p (p.upTo i)).holds (Json.object fields).tree).isTrue
        = fields.obstructed (p.segments.take (i + 1)) := by
      rw [Guard.holds, Json.lookup?_tree ne, Fields.obstructed,
        show (p.upTo i).segments = p.segments.take (i + 1) from rfl]
      cases fields.getAt? (p.segments.take (i + 1)) with
      | none => rfl
      | some j => simp [Json.typeName_tree_object, Truth.isTrue]
    rw [Guard.complaint?, truth, last]
    split <;> rfl
  simp only [Function.comp_def, each]

/-! ## Sums -/

namespace Step

/-- The guards of a change. -/
def guards : Step → List Guard
  | unset _ => []
  | set path _ => path.containerGuards
  | increment path delta => path.containerGuards ++ .notANumber path :: (path.overflowGuard? delta).toList

/-- The guard against overflow holds of a body. -/
def overflows (path : FieldPath) (delta : Number) (fields : Fields) : Bool :=
  (path.overflowGuard? delta).any fun g => (g.holds (Json.object fields).tree).isTrue

/-- The engine takes the sum of an increment as the store does, and its guard holds where the store's sum
overflows. -/
def Alike (fields : Fields) : Step → Prop
  | increment path delta =>
    match incremented path delta (fields.getAt? path.segments) with
    | .ok v => (Assignment.sum path delta).value (Json.object fields).tree = v.tree
        ∧ overflows path delta fields = false
    | .error (.overflow _) => overflows path delta fields = true
    | .error _ => True
  | _ => True

end Step

/-- The guard of an increment holds where a value that is no number stands. -/
theorem Guard.holds_notANumber (p : FieldPath) (fields : Fields) :
    ((notANumber p).holds (Json.object fields).tree).isTrue
      = (fields.getAt? p.segments).any fun v => match v with | .number _ => false | _ => true := by
  rw [holds, Json.lookup?_tree p.nonempty]
  cases fields.getAt? p.segments with
  | none => rfl
  | some j =>
    cases j with
    | bool b => cases b <;> rfl
    | number n => cases h : Tree.isWholeText n.chars <;> simp [Json.tree, Tree.typeName, h, Truth.isTrue]
    | null | string | array | object => rfl

/-- The failure of the guard against overflow. -/
theorem FieldPath.overflowGuard?_failure {p : FieldPath} {delta : Number} {g : Guard}
    (h : p.overflowGuard? delta = some g) : g.failure = .overflow p.text := by
  unfold overflowGuard? at h
  split at h
  · split at h
    · cases h; rfl
    · split at h <;> cases h; rfl
  · cases h

namespace Step

theorem overflowGuard_complaint (path : FieldPath) (delta : Number) (fields : Fields) :
    (path.overflowGuard? delta).toList.findSome? (Guard.complaint? (Json.object fields).tree)
      = if overflows path delta fields then some (.overflow path.text) else none := by
  cases h : path.overflowGuard? delta with
  | none => simp [overflows, h]
  | some g =>
    cases hg : (g.holds (Json.object fields).tree).isTrue <;>
      simp [overflows, h, hg, Guard.complaint?, FieldPath.overflowGuard?_failure h]

/-- What an increment makes of what it finds. -/
theorem incremented_cases (path : FieldPath) (delta : Number) (fields : Fields) :
    (∃ v, incremented path delta (fields.getAt? path.segments) = .ok v
        ∧ ((Guard.notANumber path).holds (Json.object fields).tree).isTrue = false)
      ∨ (incremented path delta (fields.getAt? path.segments) = .error (.overflow path.text)
        ∧ ((Guard.notANumber path).holds (Json.object fields).tree).isTrue = false)
      ∨ (incremented path delta (fields.getAt? path.segments) = .error (.notANumber path.text)
        ∧ ((Guard.notANumber path).holds (Json.object fields).tree).isTrue = true) := by
  rw [Guard.holds_notANumber]
  have elim : ∀ sum : Option Json, (∃ v, sum.elim (.error (ApplyError.overflow path.text)) Except.ok = Except.ok v)
      ∨ sum.elim (.error (ApplyError.overflow path.text)) Except.ok = Except.error (ApplyError.overflow path.text) := by
    intro sum
    cases sum with
    | none => exact .inr rfl
    | some v => exact .inl ⟨v, rfl⟩
  cases fields.getAt? path.segments with
  | none =>
    rcases elim ((Number.zero.add? delta).map .number) with ⟨v, sum⟩ | beyond
    · exact .inl ⟨v, sum, rfl⟩
    · exact .inr (.inl ⟨beyond, rfl⟩)
  | some j =>
    cases j with
    | number n =>
      rcases elim ((n.add? delta).map .number) with ⟨v, sum⟩ | beyond
      · exact .inl ⟨v, sum, rfl⟩
      · exact .inr (.inl ⟨beyond, rfl⟩)
    | null | bool | string | array | object => exact .inr (.inr ⟨rfl, rfl⟩)

/-- The first guard of a change that holds names its fault. -/
theorem guards_eq {s : Step} {fields : Fields} (alike : s.Alike fields) :
    s.guards.findSome? (Guard.complaint? (Json.object fields).tree) = s.fault? fields := by
  cases s with
  | unset path => rfl
  | set path v => rw [guards, FieldPath.containerGuards_eq, fault?_set]
  | increment path delta =>
    rw [guards, List.findSome?_append, FieldPath.containerGuards_eq, fault?_increment]
    cases fields.blocker? path.segments with
    | some s => rfl
    | none =>
      rw [Option.map_none, Option.none_or, List.findSome?_cons, overflowGuard_complaint, Guard.complaint?]
      unfold Alike at alike
      rcases incremented_cases path delta fields with ⟨v, sum, number⟩ | ⟨beyond, number⟩ | ⟨none, number⟩
      · simp only [sum] at alike ⊢
        simp [number, alike.2]
      · simp only [beyond] at alike ⊢
        simp [number, alike]
      · simp [none, number, Guard.failure]

end Step

namespace Changes

theorem guards_eq_flatMap (c : Changes) : c.guards = c.steps.flatMap Step.guards := by
  simp [guards, steps, List.flatMap_append, List.flatMap_map, Step.guards]

/-- The first guard that holds of a body names the first fault that the body shows. -/
theorem guards_eq {c : Changes} {fields : Fields} (alike : ∀ s ∈ c.steps, s.Alike fields) :
    c.guards.findSome? (Guard.complaint? (Json.object fields).tree)
      = c.steps.findSome? (Step.fault? · fields) := by
  rw [guards_eq_flatMap]
  generalize c.steps = steps at alike
  induction steps with
  | nil => rfl
  | cons s rest ih =>
    rw [List.flatMap_cons, List.findSome?_append, List.findSome?_cons,
      Step.guards_eq (alike s List.mem_cons_self), ih fun t ht => alike t (List.mem_cons_of_mem _ ht)]
    cases s.fault? fields <;> rfl

/-! ## The changed body -/

/-- A fold over trees of bodies is one over the bodies. -/
theorem foldl_tree {α : Type} {l : List α} {f : Tree → α → Tree} {g : Fields → α → Fields}
    (h : ∀ a ∈ l, ∀ fields, f (Json.object fields).tree a = (Json.object (g fields a)).tree) (fields : Fields) :
    l.foldl f (Json.object fields).tree = (Json.object (l.foldl g fields)).tree := by
  induction l generalizing fields with
  | nil => rfl
  | cons a rest ih =>
    rw [List.foldl_cons, List.foldl_cons, h a List.mem_cons_self, ih fun b hb => h b (List.mem_cons_of_mem _ hb)]

/-- Where the body shows no fault, the engine makes the body that the run of the changes makes. -/
theorem edit_eq {c : Changes} {fields : Fields} (alike : ∀ s ∈ c.steps, s.Alike fields)
    (sound : ∀ s ∈ c.steps, s.fault? fields = .none) :
    c.edit (Json.object fields).tree
      = (Json.object (c.steps.foldl (fun body s => s.make fields body) fields)).tree := by
  have sums : ∀ e ∈ c.inc, (Assignment.sum e.1 e.2).value (Json.object fields).tree
      = (Step.sum fields e.1 e.2).tree := by
    intro e he
    have mem : Step.increment e.1 e.2 ∈ c.steps := by
      simp only [steps, List.mem_append, List.mem_map]
      exact .inr ⟨e, he, rfl⟩
    have same := alike _ mem
    have makes := sound _ mem
    rw [Step.fault?_increment] at makes
    simp only [Step.Alike] at same
    rw [Step.sum]
    cases sum : incremented e.1 e.2 (fields.getAt? e.1.segments) with
    | ok v => rw [sum] at same; exact same.1
    | error e =>
      rw [sum] at makes
      split at makes <;> simp at makes
  simp only [edit, steps, assignments, List.foldl_append, List.foldl_map]
  rw [foldl_tree fun p _ body => Json.remove_tree p.nonempty body,
    foldl_tree fun e _ body => Json.set_tree e.2 e.1.nonempty body,
    foldl_tree fun e he body => by
      rw [sums e he]
      exact Json.set_tree _ e.1.nonempty body]
  rfl

end Changes

end Dossier
