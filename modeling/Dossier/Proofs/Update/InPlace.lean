import Dossier.Proofs.Update.Expression
import Dossier.Proofs.Update.Keeping
import Dossier.Proofs.Update.Sums

/-!
# Updates in place

`Update.inPlace_refines`: on a stored body, what the engine makes of the texts of the guards and of the expression of an accepted
update is what applying the update does. The first guard that is true names the failure; where none is, the expression makes the
text of the updated body, key order included, unless it is past the limits of the engine (`Update.inPlace_refused`).
-/

namespace Dossier

open Sql (limits)

/-- The engine takes sums of signed integers as the store does. -/
theorem Changes.alike_of_signed {c : Changes} {fields : Fields} (deltas : ∀ e ∈ c.inc, e.2.signed?.isSome)
    (targets : ∀ e ∈ c.inc, ∀ n, fields.getAt? e.1.segments = some (.number n) → n.signed?.isSome) :
    ∀ s ∈ c.steps, s.Alike fields := by
  intro s mem
  cases s with
  | unset path => trivial
  | set path v => trivial
  | increment path delta =>
    have there : (path, delta) ∈ c.inc := by simpa [steps] using mem
    obtain ⟨n, signed⟩ := Option.isSome_iff_exists.1 (deltas _ there)
    exact Step.alike_of_signed signed (targets _ there)

namespace Update

/-- Guards and expression of changes agree with applying them, where the engine takes the sums as the store does. -/
theorem refines_of_alike {c : Changes} (apart : Changes.conflict? c.paths = none) {b : Body} {fields : Fields}
    (tree : b.tree = (Json.object fields).tree) (alike : ∀ s ∈ c.steps, s.Alike fields) :
    match c.guards.find? fun g => (g.holds b.tree).isTrue with
    | some g => (change c).apply fields = .error g.failure
    | none => ∃ after, (change c).apply fields = .ok after ∧ c.edit b.tree = (Json.object after).tree := by
  rw [tree]
  have first := Guard.find?_map_failure (Json.object fields).tree c.guards
  rw [Changes.guards_eq alike] at first
  have applied := apply_change apart fields
  rw [← first] at applied
  cases found : c.guards.find? fun g => (g.holds (Json.object fields).tree).isTrue with
  | some g => rw [found] at applied; exact applied
  | none =>
    rw [found] at applied first
    have sound : ∀ s ∈ c.steps, s.fault? fields = none := List.findSome?_eq_none_iff.1 first.symm
    exact ⟨_, applied, Changes.edit_eq alike sound⟩

/-- What an accepted update sets is as finite as the update. -/
theorem finite_of_parse {u : Json} {c : Changes} (accepted : parse u = .ok (.change c)) (finite : u.isFinite = true) :
    ∀ e ∈ c.set, e.2.isFinite = true := fun e mem => by
  obtain ⟨operators, rfl, sets⟩ := parse_set accepted
  obtain ⟨operator, entries, key, operand, entry⟩ := sets e mem
  have inside : (Json.object entries).isFinite = true := Json.fieldsFinite_iff.1 finite _ operand
  exact Json.fieldsFinite_iff.1 inside _ entry

/-- Texts and values of the guards and of the expression of an update agree with applying it, for increments by signed integers of
places that hold nothing, no number, or a signed integer. The engine finds a truth for every guard. -/
theorem inPlace_refines {u : Json} {c : Changes} (accepted : parse u = .ok (.change c)) (written : u.isFinite = true)
    (deltas : ∀ e ∈ c.inc, e.2.signed?.isSome) (t : Table) {row : Row} {fields : Fields}
    (finite : (Json.object fields).isFinite = true) (stored : row.data.text = (Json.object fields).text)
    (targets : ∀ e ∈ c.inc, ∀ n, fields.getAt? e.1.segments = some (.number n) → n.signed?.isSome) :
    (∀ g ∈ c.guards, (row.truthOf? t g.params g.text).isSome)
      ∧ match c.guards.find? fun g => (row.truthOf? t g.params g.text).any Truth.isTrue with
        | some g => (change c).apply fields = .error g.failure
        | none => ∃ after, (change c).apply fields = .ok after
            ∧ row.documentOf? t c.expressionParams c.expressionText
              = if c.isWithinLimits then some (.text (Json.object after).text) else none := by
  obtain ⟨apart, some_⟩ := parse_change accepted
  have refined := refines_of_alike apart (Body.tree_of_text finite stored) (Changes.alike_of_signed deltas targets)
  have same : (fun g : Guard => (row.truthOf? t g.params g.text).any Truth.isTrue) = fun g => (g.holds row.data.tree).isTrue :=
    funext fun g => by rw [g.truthOf?_text t row, Option.any_some]
  refine ⟨fun g _ => by rw [g.truthOf?_text t row]; rfl, ?_⟩
  rw [same]
  cases found : c.guards.find? fun g => (g.holds row.data.tree).isTrue with
  | some g => rw [found] at refined; exact refined
  | none =>
    rw [found] at refined
    obtain ⟨after, applied, edited⟩ := refined
    refine ⟨after, applied, ?_⟩
    rw [c.documentOf?_text some_ (finite_of_parse accepted written) t row, edited]
    rfl

/-- A body with a counter one below the greatest signed integer. -/
def counterBody : Fields := [("spare", .null), ("n", .number (.whole ⟨0x7ffffffffffffffe, by decide⟩))]

/-- An update of it with all three operators, and the body after it. -/
def counterUpdate : Json :=
  .object [("$inc", .object [("n", .number (.whole ⟨1, by decide⟩))]), ("$set", .object [("a.b", .bool true)]),
    ("$unset", .array [.string "spare"])]
def counterAfter : Fields := [("n", .number (.whole ⟨0x7ffffffffffffffe + 1, by decide⟩)), ("a", .object [("b", .bool true)])]

/-- The changes that the update makes. -/
def counterChanges : Changes where
  set := [(⟨["a", "b"], by simp, by decide⟩, .bool true)]
  unset := [⟨["spare"], by simp, by decide⟩]
  inc := [(⟨["n"], by simp, by decide⟩, .whole ⟨1, by decide⟩)]

theorem inPlace_refines_counter : parse counterUpdate = .ok (.change counterChanges)
    ∧ ∃ row : Row, row.data.text = (Json.object counterBody).text ∧ (change counterChanges).apply counterBody = .ok counterAfter
      ∧ ∀ t, row.documentOf? t counterChanges.expressionParams counterChanges.expressionText
        = some (.text (Json.object counterAfter).text) := by
  have accepted : parse counterUpdate = .ok (.change counterChanges) := rfl
  have applied : (change counterChanges).apply counterBody = .ok counterAfter := rfl
  have reads : Tree.read? (Json.object counterBody).text = some (Json.object counterBody).tree := by
    rw [Json.read?_text rfl]; rfl
  have targets : ∀ e ∈ counterChanges.inc, ∀ n, counterBody.getAt? e.1.segments = some (.number n)
      → n.signed?.isSome := by
    intro e he n hn
    obtain rfl : e = _ := List.mem_singleton.1 he
    cases hn
    rfl
  refine ⟨accepted, ⟨1, "x", ⟨_, _, reads⟩, 0, 0, []⟩, rfl, applied, fun t => ?_⟩
  have stored : (⟨1, "x", ⟨_, _, reads⟩, 0, 0, []⟩ : Row).data.text = (Json.object counterBody).text := rfl
  obtain ⟨-, refined⟩ := inPlace_refines accepted rfl (by decide) t rfl stored targets
  have within : counterChanges.isWithinLimits = true := by decide
  rw [within] at refined
  generalize counterChanges.guards.find? _ = first at refined
  cases first with
  | some g =>
    rw [applied] at refined
    cases refined
  | none =>
    obtain ⟨after, made, text⟩ := refined
    obtain rfl : counterAfter = after := Except.ok.inj (applied.symm.trans made)
    exact text

/-! ## Past the limits -/

/-- An update that sets so many fields. -/
def manySets (n : Nat) : Json := .object [("$set", .object (((List.range n).map Listing.natText).map fun name => (name, .null)))]

theorem isFinite_manySets (n : Nat) : (manySets n).isFinite = true := by
  rw [manySets, Json.isFinite, Json.fieldsFinite_iff]
  refine List.forall_mem_singleton.2 (Json.fieldsFinite_iff.2 ?_)
  exact List.forall_mem_map.2 fun _ _ => rfl

theorem exists_mapM_parseSet {names : List String} (all : ∀ name ∈ names, ∃ path, FieldPath.parse name = .ok path
    ∧ path.segments = [name] ∧ isReserved name = false) : ∃ es, (names.map fun name => (name, Json.null)).mapM parseSet = .ok es
      ∧ es.map (fun e => e.1.segments) = names.map fun name => [name] := by
  induction names with
  | nil => exact ⟨[], rfl, rfl⟩
  | cons name names ih =>
    obtain ⟨⟨path, read, single, free⟩, later⟩ := List.forall_mem_cons.1 all
    obtain ⟨es, others, segments⟩ := ih later
    have head : path.head = name := by simp [FieldPath.head, single]
    have first : parseSet (name, .null) = .ok (path, .null) := by simp [parseSet, parsePath, read, head, free]
    refine ⟨_, Outcome.mapM_cons_eq_ok.2 ⟨_, _, first, others, rfl⟩, ?_⟩
    rw [List.map_cons, List.map_cons, segments, single]

/-- It is accepted, and there is nothing on which it could fail. -/
theorem exists_parse_manySets {n : Nat} (some_ : 0 < n) (short : n ≤ 1000) :
    ∃ c, parse (manySets n) = .ok (.change c) ∧ c.assignments.length = n ∧ c.guards = [] ∧ c.inc = [] := by
  generalize known : (List.range n).map Listing.natText = names
  have all : ∀ name ∈ names, ∃ path, FieldPath.parse name = .ok path ∧ path.segments = [name] ∧ isReserved name = false := by
    rw [← known]
    refine List.forall_mem_map.2 fun k mem => ?_
    obtain ⟨path, read, single⟩ := FieldPath.parse_natText (Nat.lt_of_lt_of_le (List.mem_range.1 mem) short)
    have apart := Listing.natText_ne k
    simp only [List.forall_mem_cons] at apart
    exact ⟨path, read, single, by simp [isReserved, idFields, apart.1, apart.2.1, apart.2.2.1, apart.2.2.2.1]⟩
  have distinct : names.Pairwise fun a b => a ≠ b := by
    rw [← known, List.pairwise_map]
    exact List.nodup_range.imp fun ne same => ne (Listing.natText_inj same)
  obtain ⟨es, read, segments⟩ := exists_mapM_parseSet all
  have length : es.length = n := by
    have same := congrArg List.length segments
    rw [List.length_map, List.length_map, ← known, List.length_map, List.length_range] at same
    exact same
  have apart : Changes.conflict? (es.map (·.1)) = none := by
    refine Changes.conflict?_of_pairwise (List.pairwise_map.2 ?_)
    have listed : (es.map fun e => e.1.segments).Pairwise fun s s' => (s.isPrefixOf s' || s'.isPrefixOf s) = false := by
      rw [segments, List.pairwise_map]
      exact distinct.imp fun ne => by simp [List.isPrefixOf, ne, ne.symm]
    exact List.pairwise_map.1 listed
  have single : ∀ e ∈ es, e.1.ancestors = [] := fun e mem => by
    have there : e.1.segments ∈ names.map fun name => [name] := segments ▸ List.mem_map_of_mem mem
    obtain ⟨name, -, eq⟩ := List.mem_map.1 there
    rw [FieldPath.ancestors, ← eq]
    rfl
  refine ⟨⟨es, [], []⟩, ?_, ?_, ?_, rfl⟩
  · have nonempty : es ≠ [] := by
      rintro rfl
      exact absurd length (Nat.ne_of_lt some_)
    have operator : isOperatorKey "$set" = true := by decide +kernel
    have paths : (⟨es, [], []⟩ : Changes).paths = es.map (·.1) := by simp [Changes.paths]
    have added : addOperator .none ("$set", .object (names.map fun name => (name, .null))) = .ok ⟨es, [], []⟩ := by
      simp [addOperator, entries, read, Changes.none]
    have changes : parseOperators [("$set", .object (names.map fun name => (name, .null)))] = .ok ⟨es, [], []⟩ := by
      simp [parseOperators, added, Changes.isEmpty, nonempty, paths, apart]
    rw [manySets, known, parse]
    simp [operator, changes]
  · simp [Changes.assignments, length]
  · simp only [Changes.guards, List.flatMap_nil, List.append_nil]
    exact List.flatMap_eq_nil_iff.2 fun e mem => by rw [FieldPath.containerGuards, single e mem, List.map_nil]

/-- Six hundred fields are set by applying the update to an empty body, and the engine refuses to. -/
theorem inPlace_refused : ∃ c after, parse (manySets 600) = .ok (.change c) ∧ (change c).apply [] = .ok after
    ∧ ∀ (t : Table) (row : Row), row.documentOf? t c.expressionParams c.expressionText = none := by
  obtain ⟨c, accepted, length, guards, noSums⟩ := exists_parse_manySets (n := 600) (by decide) (by decide)
  obtain ⟨apart, some_⟩ := parse_change accepted
  have reads : Tree.read? (Json.object []).text = some (Json.object []).tree := by
    rw [Json.read?_text rfl]
    rfl
  have alike : ∀ s ∈ c.steps, s.Alike [] := Changes.alike_of_signed
    (by rw [noSums]; exact fun _ mem => absurd mem List.not_mem_nil) (by rw [noSums]; exact fun _ mem => absurd mem List.not_mem_nil)
  have refined := refines_of_alike (b := ⟨_, _, reads⟩) apart rfl alike
  rw [guards] at refined
  obtain ⟨after, applied, -⟩ := refined
  have excess : c.isWithinLimits = false := by
    have many : ¬ max (1 + 2 * 600) (1 + c.unset.length) ≤ limits.arguments := fun few =>
      absurd (Nat.le_trans (Nat.le_max_left _ _) few) (by decide)
    rw [Changes.isWithinLimits, length, decide_eq_false many, Bool.false_and]
  refine ⟨c, after, accepted, applied, fun t row => ?_⟩
  rw [c.documentOf?_text some_ (finite_of_parse accepted (isFinite_manySets 600)) t row, excess]
  rfl

end Update

end Dossier
