import Dossier.Proofs.Json.Open
import Dossier.Proofs.Update.Effect

/-!
# Sums of integers at a path

An increment of an integer of 64 signed bits, or of nothing, by another one writes the exact sum, in place
(`Changes.Admitted.sum`) and when the update is applied to the decoded document (`Changes.sum_of_apply`). Where nothing stands in
the way of an update that adds up integers only (`Changes.Integral`), it fails for overflow and for nothing else
(`Changes.Integral.overflow_of_guard`, `Changes.Integral.overflow_of_apply`).
-/

namespace Dossier

open Text

namespace Fields

/-- What stands at a path of a body stands in equal form in an equal one. -/
theorem getAt?_of_equal {a b : Fields} {path : List String} {v : Json} (same : Json.equal (.object a) (.object b) = true)
    (found : a.getAt? path = some v) : ∃ w, b.getAt? path = some w ∧ v.equal w = true := by
  induction path generalizing a b with
  | nil => cases found
  | cons key rest ih =>
    rw [Json.equal, Bool.and_eq_true] at same
    have each := Json.within_iff.1 same.2
    cases rest with
    | nil => exact each _ (mem_of_get? found)
    | cons next rest =>
      obtain ⟨inner, entry, below⟩ := getAt?_cons_eq_some.1 found
      obtain ⟨w, there, equal⟩ := each _ (mem_of_get? entry)
      cases w with
      | object inner' =>
        obtain ⟨u, found', equal'⟩ := ih equal below
        exact ⟨u, getAt?_cons_eq_some.2 ⟨inner', there, found'⟩, equal'⟩
      | null | bool | number | string | array => cases equal

end Fields

/-! ## Edits in place -/

namespace Changes

variable {c : Changes} {t : Tree} {path : FieldPath} {delta : Number} {m n : Int}

/-- No guard of the changes holds of the tree. -/
def Admitted (c : Changes) (t : Tree) : Prop := ∀ g ∈ c.guards, (g.holds t).isTrue = false

/-- The paths that are written. -/
def written (c : Changes) : List FieldPath := c.set.map (·.1) ++ c.inc.map (·.1)

theorem containerGuards_subset {p : FieldPath} (mem : p ∈ c.written) : p.containerGuards ⊆ c.guards := by
  intro g here
  rw [guards, List.mem_append, List.mem_flatMap, List.mem_flatMap]
  rcases List.mem_append.1 mem with set | inc
  · obtain ⟨e, there, rfl⟩ := List.mem_map.1 set
    exact .inl ⟨e, there, here⟩
  · obtain ⟨e, there, rfl⟩ := List.mem_map.1 inc
    exact .inr ⟨e, there, List.mem_append_left _ here⟩

theorem overflowGuard_mem (mem : (path, delta) ∈ c.inc) {g : Guard} (guard : path.overflowGuard? delta = some g) : g ∈ c.guards := by
  rw [guards, List.mem_append, List.mem_flatMap, List.mem_flatMap]
  refine .inr ⟨_, mem, List.mem_append_right _ (List.mem_cons_of_mem _ ?_)⟩
  rw [guard]
  exact List.mem_singleton_self g

/-- Where no guard holds, nothing stands in the way of what is written. -/
theorem Admitted.open (h : c.Admitted t) (object : ∃ members, t = .object members) {p : FieldPath} (mem : p ∈ c.written) :
    t.Open p.segments := by
  refine Tree.open_of_beginnings object fun i bound sub found => ?_
  have holds := h _ (containerGuards_subset mem (List.mem_map.2 ⟨p.upTo i, List.mem_map.2 ⟨i, List.mem_range.2 bound, rfl⟩, rfl⟩))
  have found : t.lookup? (p.upTo i).segments = some sub := found
  rw [Guard.holds, found] at holds
  exact Tree.exists_object_of_typeName (by simpa [Truth.isTrue] using holds)

/-- Where no guard holds, the sums of signed integers are signed. -/
theorem Admitted.fits (h : c.Admitted t) (mem : (path, delta) ∈ c.inc) (hd : delta.signed? = some n)
    (counts : t.Counts path.segments m) : Value.fits (m + n) = true := by
  have guard := counts.overflowGuard hd
  cases none_ : path.overflowGuard? delta with
  | none =>
    rw [none_, Option.any_none, Bool.false_eq, Bool.not_eq_false'] at guard
    exact guard
  | some g =>
    rw [none_, Option.any_some, h g (overflowGuard_mem mem none_), Bool.false_eq, Bool.not_eq_false'] at guard
    exact guard

/-- Of several writes at paths apart from each other each is found afterwards, if nothing stood in its way. -/
theorem lookup?_foldl_set {as : List Assignment} {a : Assignment} (value : Assignment → Tree)
    (apart : as.Pairwise fun a b => Apart a.path.segments b.path.segments) (mem : a ∈ as) {t : Tree}
    (way : t.Open a.path.segments) :
    (as.foldl (fun t a => Tree.set (value a) a.path.segments t) t).lookup? a.path.segments = some (value a) := by
  induction as generalizing t with
  | nil => cases mem
  | cons b rest ih =>
    obtain ⟨first, others⟩ := List.pairwise_cons.1 apart
    rw [List.foldl_cons]
    rcases List.mem_cons.1 mem with rfl | later
    · refine List.foldlRecOn rest _ (motive := fun t => Tree.lookup? a.path.segments t = some (value a))
        (Tree.lookup?_set_self _ way) fun t found b there => ?_
      exact Tree.lookup?_set (first b there).symm _ found
    · exact ih others later (way.set (first a later) _)

/-- Where no guard holds, the edited tree has what each assignment writes. -/
theorem Admitted.lookup?_edit (h : c.Admitted t) (object : ∃ members, t = .object members) (apart : conflict? c.paths = Option.none)
    {a : Assignment} (mem : a ∈ c.assignments) : (c.edit t).lookup? a.path.segments = some (a.value t) := by
  have paths : c.assignments.map Assignment.path = c.written := by
    simp [assignments, written, Function.comp_def, Assignment.path]
  have all : c.steps.map Step.path = c.unset ++ c.written := by simp [steps, written, Function.comp_def, Step.path]
  have listed : (c.steps.map Step.path).Pairwise fun p q => Apart p.segments q.segments :=
    List.pairwise_map.2 (steps_apart apart)
  rw [all] at listed
  obtain ⟨-, assigned, across⟩ := List.pairwise_append.1 listed
  rw [← paths, List.pairwise_map] at assigned
  have here : a.path ∈ c.written := paths ▸ List.mem_map_of_mem mem
  have way : (c.unset.foldl (fun t p => t.remove p.segments) t).Open a.path.segments :=
    List.foldlRecOn c.unset _ (motive := fun t => Tree.Open a.path.segments t) (h.open object here)
      fun _ way p removed => way.remove (across p removed _ here)
  exact lookup?_foldl_set (fun a => a.value t) assigned mem way

/-- Where no guard holds, the edited tree has the sum of an integer and a signed delta. -/
theorem Admitted.sum (h : c.Admitted t) (object : ∃ members, t = .object members) (apart : conflict? c.paths = Option.none)
    (mem : (path, delta) ∈ c.inc) (hd : delta.signed? = some n) (counts : t.Counts path.segments m) :
    (c.edit t).lookup? path.segments = some (.number (Number.intText (m + n))) := by
  have assigned : Assignment.sum path delta ∈ c.assignments :=
    List.mem_append_right _ (List.mem_map_of_mem (f := fun e : FieldPath × Number => Assignment.sum e.1 e.2) mem)
  rw [← counts.sum_value hd (h.fits mem hd counts)]
  exact h.lookup?_edit object apart assigned

end Changes

/-! ## Documents -/

section
variable {t : Tree} {fields after : Fields} {path : FieldPath} {delta : Number} {m n : Int}

/-- What a tree counts at a path, its document adds to. -/
theorem Tree.Counts.addend (h : t.Counts path.segments m) (distinct : t.Distinct) (read : t.json? = some (.object fields)) :
    ∃ a, Json.addend? (fields.getAt? path.segments) = some a ∧ a.signed? = some m := by
  have value : ∀ v, fields.getAt? path.segments = some v → ∃ sub, t.lookup? path.segments = some sub ∧ sub.json? = some v :=
    fun v found => Tree.lookup?_of_json? distinct read found
  cases h with
  | absent none_ =>
    cases here : fields.getAt? path.segments with
    | none => exact ⟨.zero, rfl, rfl⟩
    | some v =>
      obtain ⟨sub, found, -⟩ := value v here
      cases none_.symm.trans found
  | integer fits found =>
    obtain ⟨low, high⟩ := Value.fits_iff.1 fits
    obtain ⟨v, -, there⟩ := Tree.lookup?_of_decoded distinct read found
    rw [Json.lookup?_tree path.nonempty] at there
    obtain ⟨w, here, -⟩ := Option.map_eq_some_iff.1 there
    obtain ⟨sub, found', decoded⟩ := value w here
    obtain rfl := Option.some.inj (found.symm.trans found')
    have whole := Number.ofChars?_intText ⟨m, low, by omega⟩
    rw [Tree.json?, whole] at decoded
    cases decoded
    refine ⟨_, by rw [here]; rfl, ?_⟩
    rw [Number.signed?, if_pos (by simpa [Whole.isSigned] using high)]

/-- A way that is open in a tree is free in its document. -/
theorem Tree.Open.free {p : FieldPath} (h : t.Open p.segments) (distinct : t.Distinct) (read : t.json? = some (.object fields)) :
    fields.blocker? p.segments = none := by
  rw [FieldPath.blocker?_eq_none, FieldPath.ancestors, List.forall_mem_map]
  intro i mem
  rw [Fields.obstructed, Option.any_eq_false]
  intro v found
  obtain ⟨sub, there, decoded⟩ := Tree.lookup?_of_json? distinct read found
  obtain ⟨members, rfl⟩ := h.beginnings (List.mem_range.1 mem) there
  obtain ⟨inner, -, rfl⟩ := Option.map_eq_some_iff.1 decoded
  rfl

namespace Changes

variable {c : Changes}

/-- An update that has been made has written the sum of an integer and a signed delta. -/
theorem sum_of_apply (apart : conflict? c.paths = Option.none) (distinct : t.Distinct) (read : t.json? = some (.object fields))
    (applied : (Update.change c).apply fields = .ok after) (mem : (path, delta) ∈ c.inc) (hd : delta.signed? = some n)
    (counts : t.Counts path.segments m) :
    Value.fits (m + n) = true ∧ ∃ bounds, after.getAt? path.segments = some (.number (.whole ⟨m + n, bounds⟩)) := by
  obtain ⟨a, sum, addend, added, stored⟩ := (effect_of_apply apart (Tree.isDistinct_of_json? _ read) applied).inc _ mem
  obtain ⟨a', addend', ha⟩ := counts.addend distinct read
  obtain rfl := Option.some.inj (addend.symm.trans addend')
  rcases Number.add?_of_signed ha hd with ⟨bounds, total, fits⟩ | ⟨overflow, -⟩
  · cases added.symm.trans total
    exact ⟨Value.fits_iff.2 fits, bounds, stored⟩
  · cases added.symm.trans overflow

/-- If the update leaves an equal value, the sum is what has been stored. -/
theorem sum_of_equal (apart : conflict? c.paths = Option.none) (distinct : t.Distinct) (read : t.json? = some (.object fields))
    (applied : (Update.change c).apply fields = .ok after) (same : Json.equal (.object after) (.object fields) = true)
    (mem : (path, delta) ∈ c.inc) (hd : delta.signed? = some n) (counts : t.Counts path.segments m) :
    t.lookup? path.segments = some (.number (Number.intText (m + n))) := by
  obtain ⟨-, bounds, stored⟩ := sum_of_apply apart distinct read applied mem hd counts
  obtain ⟨w, there, equal⟩ := Fields.getAt?_of_equal same stored
  obtain ⟨a, addend, ha⟩ := counts.addend distinct read
  cases w with
  | number b =>
    rw [there] at addend
    cases addend
    obtain ⟨_, rfl, -⟩ := Number.signed?_eq_some ha
    have kept : m + n = m := by simpa only [Json.equal, Number.equal, beq_iff_eq] using equal
    rw [kept]
    cases counts with
    | absent none_ =>
      obtain ⟨sub, found, -⟩ := Tree.lookup?_of_json? distinct read there
      cases none_.symm.trans found
    | integer fits found => exact found
  | null | bool | string | array | object => cases equal

end Changes

end

/-! ## Overflow -/

namespace Changes

variable {c : Changes} {t : Tree} {fields : Fields} {e : ApplyError}

/-- In the tree nothing stands in the way of what the changes write, and all that they add up are integers of 64 signed bits. -/
structure Integral (c : Changes) (t : Tree) : Prop where
  way : ∀ p ∈ c.written, t.Open p.segments
  counts : ∀ e ∈ c.inc, ∃ m n, t.Counts e.1.segments m ∧ e.2.signed? = some n

/-- The error names a path at which the sum is not an integer of 64 signed bits. -/
def Overflow (c : Changes) (t : Tree) (e : ApplyError) : Prop :=
  ∃ path delta m n, (path, delta) ∈ c.inc ∧ t.Counts path.segments m ∧ delta.signed? = some n ∧ Value.fits (m + n) = false
    ∧ e = .overflow path.text

theorem Integral.not_blocked (h : c.Integral t) {p : FieldPath} (written : p ∈ c.written) {g : Guard} (mem : g ∈ p.containerGuards) :
    (g.holds t).isTrue = false := by
  obtain ⟨_, ancestor, rfl⟩ := List.mem_map.1 mem
  obtain ⟨i, bound, rfl⟩ := List.mem_map.1 ancestor
  cases found : t.lookup? (p.upTo i).segments with
  | none => simp [Guard.holds, found, Truth.isTrue]
  | some sub =>
    obtain ⟨members, rfl⟩ := (h.way p written).beginnings (List.mem_range.1 bound) found
    simp [Guard.holds, found, Truth.isTrue, Tree.typeName]

/-- A guard that holds is one against overflow. -/
theorem Integral.overflow_of_guard (h : c.Integral t) {g : Guard} (mem : g ∈ c.guards) (holds : (g.holds t).isTrue = true) :
    c.Overflow t g.failure := by
  rw [guards, List.mem_append, List.mem_flatMap, List.mem_flatMap] at mem
  rcases mem with ⟨entry, there, blocked⟩ | ⟨entry, there, mem⟩
  · have free := h.not_blocked (List.mem_append_left _ (List.mem_map_of_mem there)) blocked
    cases free.symm.trans holds
  obtain ⟨m, n, counts, hd⟩ := h.counts entry there
  rcases List.mem_append.1 mem with blocked | mem
  · have free := h.not_blocked (List.mem_append_right _ (List.mem_map_of_mem there)) blocked
    cases free.symm.trans holds
  rcases List.mem_cons.1 mem with rfl | mem
  · cases counts with
    | absent none_ => simp [Guard.holds, none_, Truth.isTrue] at holds
    | integer _ found => simp [Guard.holds, found, Truth.isTrue, Tree.typeName, Tree.isWholeText_intText] at holds
  · have guard := counts.overflowGuard hd
    rw [Option.mem_toList.1 mem, Option.any_some, holds, Bool.true_eq, Bool.not_eq_true'] at guard
    exact ⟨entry.1, entry.2, m, n, there, counts, hd, guard, FieldPath.overflowGuard?_failure (Option.mem_toList.1 mem)⟩

/-- Applying the changes fails for overflow only. -/
theorem Integral.overflow_of_apply (h : c.Integral t) (apart : conflict? c.paths = Option.none) (distinct : t.Distinct)
    (read : t.json? = some (.object fields)) (failed : (Update.change c).apply fields = .error e) : c.Overflow t e := by
  rw [Update.apply_change apart] at failed
  split at failed
  · rename_i found
    cases failed
    obtain ⟨s, mem, fault⟩ := List.exists_of_findSome?_eq_some found
    rcases mem_steps.1 mem with ⟨p, there, rfl⟩ | ⟨entry, there, rfl⟩ | ⟨entry, there, rfl⟩
    · cases fault
    · have free := (h.way _ (List.mem_append_left _ (List.mem_map_of_mem there))).free distinct read
      rw [Step.fault?_set, free] at fault
      cases fault
    · have free := (h.way _ (List.mem_append_right _ (List.mem_map_of_mem there))).free distinct read
      obtain ⟨m, n, counts, hd⟩ := h.counts entry there
      obtain ⟨a, addend, ha⟩ := counts.addend distinct read
      rw [Step.fault?_increment, free, incremented_of_addend addend] at fault
      rcases Number.add?_of_signed ha hd with ⟨bounds, total, -⟩ | ⟨overflow, beyond⟩
      · rw [total] at fault
        cases fault
      · rw [overflow] at fault
        cases fault
        exact ⟨entry.1, entry.2, m, n, there, counts, hd, Bool.eq_false_iff.2 (mt Value.fits_iff.1 beyond), rfl⟩
  · cases failed

end Changes

end Dossier
