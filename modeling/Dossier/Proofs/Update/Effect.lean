import Mathlib.Data.List.Induction
import Dossier.Proofs.Update.Distinct
import Dossier.Proofs.Update.Guards
import Dossier.Proofs.Update.Sums

/-!
# What an operator update makes of a body

`Update.effect_of_parse`: an accepted operator update that succeeds leaves at each of its paths what its entry says, at all
paths apart from them what was there, and in every object that is not within one of its paths the keys in their order, the
new ones last (`Changes.Effect`). It fails exactly where a value stands in the way of a write or a sum cannot be taken
(`Changes.Impeded`).
-/

namespace Dossier

open Outcome

namespace Fields

variable {fields inner : Fields} {key : String} {p q r : List String} {v : Json}

/-- A path that goes on below `q` has a rest there. -/
theorem rest_ne_nil (split : q ++ r = p) (outside : ¬ p <+: q) : r ≠ [] := by
  rintro rfl
  rw [List.append_nil] at split
  exact outside (split ▸ List.prefix_rfl)

/-! ## Objects of a body -/

/-- The object at a list of keys: the body itself at none. -/
def objectAt? : List String → Fields → Option Fields
  | [], fields => some fields
  | s :: rest, fields =>
    match fields.get? s with
    | some (.object inner) => objectAt? rest inner
    | _ => none

theorem objectAt?_cons_eq_some {s : String} {rest : List String} :
    objectAt? (s :: rest) fields = some inner ↔ ∃ below, fields.get? s = some (.object below) ∧ objectAt? rest below = some inner := by
  rw [objectAt?]
  split
  · rename_i below found
    exact ⟨fun h => ⟨below, found, h⟩, fun ⟨below', found', h⟩ => by cases found.symm.trans found'; exact h⟩
  · rename_i absent
    exact ⟨nofun, fun ⟨below, found, _⟩ => absurd found (absent below)⟩

theorem objectAt?_eq_some (ne : q ≠ []) : objectAt? q fields = some inner ↔ getAt? q fields = some (.object inner) := by
  induction q generalizing fields with
  | nil => exact absurd rfl ne
  | cons s rest ih =>
    rw [objectAt?_cons_eq_some]
    cases rest with
    | nil =>
      constructor
      · rintro ⟨below, found, eq⟩
        cases eq
        exact found
      · exact fun found => ⟨inner, found, rfl⟩
    | cons t rest =>
      rw [getAt?]
      · split
        · rename_i below found
          rw [← ih (List.cons_ne_nil t rest)]
          constructor
          · rintro ⟨below', found', h⟩
            cases found.symm.trans found'
            exact h
          · exact fun h => ⟨below, found, h⟩
        · rename_i absent
          constructor
          · rintro ⟨below, found, -⟩
            exact absurd found (absent below)
          · rintro ⟨⟩
      · simp

/-- A write below an object is a write in the object. -/
theorem objectAt?_putAt_append (ne : r ≠ []) (found : objectAt? q fields = some inner) :
    objectAt? q (putAt v (q ++ r) fields) = some (putAt v r inner) := by
  induction q generalizing fields with
  | nil => cases found; rfl
  | cons s rest ih =>
    obtain ⟨below, entry, deeper⟩ := objectAt?_cons_eq_some.1 found
    obtain ⟨t, tail, eq⟩ := List.exists_cons_of_ne_nil (List.append_ne_nil_of_right_ne_nil rest ne)
    have inner? : fields.inner? s = some below := by simp [Fields.inner?, entry]
    rw [List.cons_append, eq, putAt_cons, inner?, Option.map_some, Option.getD_some, ← eq]
    exact objectAt?_cons_eq_some.2 ⟨_, get?_put_self _ _ _, ih deeper⟩

/-- A removal below an object is a removal in the object. -/
theorem objectAt?_eraseAt_append (ne : r ≠ []) (found : objectAt? q fields = some inner) :
    objectAt? q (eraseAt (q ++ r) fields) = some (eraseAt r inner) := by
  induction q generalizing fields with
  | nil => cases found; rfl
  | cons s rest ih =>
    obtain ⟨below, entry, deeper⟩ := objectAt?_cons_eq_some.1 found
    obtain ⟨t, tail, eq⟩ := List.exists_cons_of_ne_nil (List.append_ne_nil_of_right_ne_nil rest ne)
    rw [List.cons_append, eq, eraseAt, entry]
    · exact objectAt?_cons_eq_some.2 ⟨_, get?_put_self _ _ _, eq ▸ ih deeper⟩
    · simp

/-! ## Keys -/

/-- A write adds at most the first key of its path, as the last one. -/
theorem keys_putAt (fields : Fields) (key : String) (r : List String) (v : Json) :
    keys (putAt v (key :: r) fields) = if key ∈ keys fields then keys fields else keys fields ++ [key] := by
  cases r with
  | nil => exact keys_put
  | cons t rest =>
    rw [putAt_cons]
    cases found : fields.inner? key with
    | some inner => exact keys_put
    | none =>
      have mem : key ∈ keys fields := Decidable.byContradiction fun absent => by
        simp [inner?, get?_eq_none.2 absent] at found
      exact (if_pos mem).symm

/-- A removal takes out at most the key that it is about. -/
theorem keys_eraseAt (fields : Fields) (key : String) (r : List String) :
    keys (eraseAt (key :: r) fields) = if r = [] then (keys fields).erase key else keys fields := by
  cases r with
  | nil => exact keys_erase
  | cons t rest =>
    rw [eraseAt]
    · split
      · rename_i inner found
        rw [keys_put, if_pos (mem_keys_of_get? found), if_neg (List.cons_ne_nil t rest)]
      · exact (if_neg (List.cons_ne_nil t rest)).symm
    · simp

/-- Where no object repeats a key, nothing is left at the path of a removal. -/
theorem getAt?_eraseAt_self {p : List String} {fields : Fields} (distinct : (Json.object fields).tree.Distinct) :
    getAt? p (eraseAt p fields) = none := by
  match p with
  | [] => rfl
  | [leaf] =>
    refine get?_eq_none.2 fun mem => ?_
    rw [eraseAt, keys_erase] at mem
    exact (Json.nodup_keys distinct).not_mem_erase mem
  | s :: t :: rest =>
    rw [eraseAt]
    · split
      · rename_i inner found
        rw [getAt?_cons, inner?_put_self, Option.bind_some]
        exact getAt?_eraseAt_self (Json.distinct_entry distinct (mem_of_get? found))
      · rename_i other
        rw [getAt?]
        · split
          · rename_i inner found
            exact absurd found (other inner)
          · rfl
        · simp
    · simp

/-! ## Order of keys -/

/-- The keys of the second body are some of those of the first one in their order, followed by others. -/
def InOrder (fields after : Fields) : Prop :=
  ∃ old new, keys after = old ++ new ∧ old.Sublist (keys fields) ∧ ∀ k ∈ new, k ∉ keys fields

namespace InOrder

variable {after after' : Fields}

theorem refl (fields : Fields) : InOrder fields fields := ⟨keys fields, [], by simp, .refl _, nofun⟩

theorem add (h : InOrder fields after) (new : key ∉ keys fields) (eq : keys after' = keys after ++ [key]) :
    InOrder fields after' := by
  obtain ⟨old, others, split, sub, apart⟩ := h
  refine ⟨old, others ++ [key], by rw [eq, split, List.append_assoc], sub, fun k mem => ?_⟩
  rcases List.mem_append.1 mem with other | last
  · exact apart k other
  · exact List.mem_singleton.1 last ▸ new

theorem remove (h : InOrder fields after) (eq : keys after' = (keys after).erase key) : InOrder fields after' := by
  obtain ⟨old, others, split, sub, apart⟩ := h
  rw [split, List.erase_append] at eq
  split at eq
  · exact ⟨_, others, eq, List.erase_sublist.trans sub, apart⟩
  · exact ⟨old, _, eq, sub, fun k mem => apart k (List.mem_of_mem_erase mem)⟩

end InOrder

end Fields

namespace Step

variable {s : Step} {steps : List Step} {q : List String} {origin fields inner inner' : Fields}

/-- What a change at a path does to the keys of the object at `q`: nothing, or it adds the next key of its path, or it takes out
the last one. -/
inductive Rekeyed (path q : List String) (inner inner' : Fields) : Prop
  | same (keys : inner'.keys = inner.keys)
  | added (key : String) (r : List String) (split : path = q ++ key :: r) (new : key ∉ inner.keys)
    (keys : inner'.keys = inner.keys ++ [key])
  | removed (key : String) (split : path = q ++ [key]) (keys : inner'.keys = inner.keys.erase key)

theorem rekeyed_putAt (v : Json) (key : String) (r q : List String) (inner : Fields) :
    Rekeyed (q ++ key :: r) q inner (inner.putAt v (key :: r)) := by
  have keys := Fields.keys_putAt inner key r v
  split at keys
  · exact .same keys
  · rename_i new
    exact .added key r rfl new keys

theorem rekeyed_eraseAt (key : String) (r q : List String) (inner : Fields) :
    Rekeyed (q ++ key :: r) q inner (inner.eraseAt (key :: r)) := by
  have keys := Fields.keys_eraseAt inner key r
  split at keys
  · rename_i last
    exact .removed key (last ▸ rfl) keys
  · exact .same keys

/-- An object that is not within the path of a change is still one after it. -/
theorem rekeyed_make (origin : Fields) (outside : ¬ s.path.segments <+: q) (found : fields.objectAt? q = some inner) :
    ∃ inner', (s.make origin fields).objectAt? q = some inner' ∧ Rekeyed s.path.segments q inner inner' := by
  by_cases below : q <+: s.path.segments
  · obtain ⟨r, path⟩ := below
    have ne := Fields.rest_ne_nil path outside
    obtain ⟨key, rest, rfl⟩ := List.exists_cons_of_ne_nil ne
    have put (v : Json) : (fields.putAt v s.path.segments).objectAt? q = some (inner.putAt v (key :: rest)) :=
      path ▸ Fields.objectAt?_putAt_append ne found
    have erase : (fields.eraseAt s.path.segments).objectAt? q = some (inner.eraseAt (key :: rest)) :=
      path ▸ Fields.objectAt?_eraseAt_append ne found
    rw [← path]
    cases s with
    | unset p => exact ⟨_, erase, rekeyed_eraseAt key rest q inner⟩
    | set p v => exact ⟨_, put v, rekeyed_putAt v key rest q inner⟩
    | increment p delta => exact ⟨_, put _, rekeyed_putAt _ key rest q inner⟩
  · have ne : q ≠ [] := fun empty => below (empty ▸ List.nil_prefix)
    refine ⟨inner, ?_, .same rfl⟩
    rw [Fields.objectAt?_eq_some ne, (sameAt_make ⟨outside, below⟩ origin fields).1]
    exact (Fields.objectAt?_eq_some ne).1 found

/-- The keys of an object after changes: they are in order, and one that is missing was the last of the path of a change. -/
structure Ordered (q : List String) (steps : List Step) (inner inner' : Fields) : Prop where
  inOrder : inner.InOrder inner'
  missing : ∀ k ∈ inner.keys, k ∉ inner'.keys → ∃ s ∈ steps, s.path.segments = q ++ [k]

/-- One more change, apart from the others, leaves the keys in order: the key that it adds was not taken out by another one,
which would be at a beginning of its path. -/
theorem Ordered.next {inner'' : Fields} (h : Ordered q steps inner inner') (apart : ∀ t ∈ steps, ApartFrom t s)
    (rekeyed : Rekeyed s.path.segments q inner' inner'') : Ordered q (steps ++ [s]) inner inner'' := by
  have known {k : String} (there : k ∈ inner.keys) (gone : k ∉ inner'.keys) :
      ∃ t ∈ steps ++ [s], t.path.segments = q ++ [k] := by
    obtain ⟨t, mem, path⟩ := h.missing k there gone
    exact ⟨t, List.mem_append_left _ mem, path⟩
  cases rekeyed with
  | same keys =>
    refine ⟨?_, fun k there gone => known there (keys ▸ gone)⟩
    obtain ⟨old, new, split, rest⟩ := h.inOrder
    exact ⟨old, new, keys.trans split, rest⟩
  | added key r split new keys =>
    refine ⟨h.inOrder.add (fun there => ?_) keys, fun k there gone => known there fun mem => ?_⟩
    · obtain ⟨t, mem, path⟩ := h.missing key there new
      refine (apart t mem).1 ?_
      rw [path, split]
      exact ⟨r, by simp⟩
    · exact gone (keys ▸ List.mem_append_left _ mem)
  | removed key split keys =>
    refine ⟨h.inOrder.remove keys, fun k there gone => ?_⟩
    by_cases mem : k ∈ inner'.keys
    · have same : k = key := Decidable.byContradiction fun other => gone (keys ▸ (List.mem_erase_of_ne other).2 mem)
      exact ⟨s, by simp, same ▸ split⟩
    · exact known there mem

/-- A run of changes at paths apart from each other leaves the keys of every object that is not within one of them in order. -/
theorem ordered_foldl (origin : Fields) (apart : steps.Pairwise ApartFrom) (outside : ∀ s ∈ steps, ¬ s.path.segments <+: q)
    (found : fields.objectAt? q = some inner) :
    ∃ inner', (steps.foldl (fun body s => s.make origin body) fields).objectAt? q = some inner'
      ∧ Ordered q steps inner inner' := by
  induction steps using List.reverseRecOn with
  | nil => exact ⟨inner, found, .refl inner, fun k there gone => absurd there gone⟩
  | append_singleton init s ih =>
    obtain ⟨before, -, across⟩ := List.pairwise_append.1 apart
    obtain ⟨inner', there, ordered⟩ := ih before fun t mem => outside t (List.mem_append_left _ mem)
    obtain ⟨inner'', next, rekeyed⟩ := rekeyed_make origin (outside s (by simp)) there
    rw [List.foldl_append]
    exact ⟨inner'', next, ordered.next (fun t mem => across t mem s (by simp)) rekeyed⟩

/-! ## What stands at the paths -/

/-- Changes leave what stands at a path apart from all of theirs. -/
theorem sameAt_foldl (apart : ∀ s ∈ steps, Apart s.path.segments q) (origin fields : Fields) :
    Fields.SameAt q (steps.foldl (fun body s => s.make origin body) fields) fields := by
  induction steps generalizing fields with
  | nil => exact ⟨rfl, rfl⟩
  | cons s rest ih =>
    obtain ⟨first, others⟩ := List.forall_mem_cons.1 apart
    have later := ih others (s.make origin fields)
    have here := sameAt_make first origin fields
    exact ⟨later.1.trans here.1, later.2.trans here.2⟩

/-- What stands at the path of one of several changes apart from each other is what this one has left there, on a body that
has at the path what the run started with. -/
theorem exists_make_of_mem (apart : steps.Pairwise ApartFrom) (mem : s ∈ steps) (origin fields : Fields) :
    ∃ body, Fields.SameAt s.path.segments body fields
      ∧ Fields.SameAt s.path.segments (steps.foldl (fun body s => s.make origin body) fields) (s.make origin body) := by
  obtain ⟨before, after, rfl⟩ := List.append_of_mem mem
  obtain ⟨-, later, across⟩ := List.pairwise_append.1 apart
  rw [List.foldl_append, List.foldl_cons]
  exact ⟨_, sameAt_foldl (fun t ht => across t ht s List.mem_cons_self) origin fields,
    sameAt_foldl (fun t ht => ((List.pairwise_cons.1 later).1 t ht).symm) origin _⟩

end Step

/-! ## Faults -/

/-- Something stands in the way of a path where a value that is no object stands at one of its ancestors. -/
theorem FieldPath.blocker?_eq_none {p : FieldPath} {fields : Fields} :
    fields.blocker? p.segments = none ↔ ∀ a ∈ p.ancestors, fields.obstructed a.segments = false := by
  have ends (i : Nat) : (p.segments.take (i + 1)).getLast? ≠ none :=
    fun empty => (p.upTo i).nonempty (List.getLast?_eq_none_iff.1 empty)
  rw [Fields.blocker?_eq_findSome?, List.findSome?_eq_none_iff, ancestors, List.forall_mem_map]
  refine forall₂_congr fun i _ => ?_
  have segments : (p.upTo i).segments = p.segments.take (i + 1) := rfl
  rw [segments]
  cases fields.obstructed (p.segments.take (i + 1)) with
  | true => simp [ends i]
  | false => simp

namespace Step

theorem fault?_set_eq_none {path : FieldPath} {v : Json} {fields : Fields} :
    (set path v).fault? fields = none ↔ fields.blocker? path.segments = none := by
  rw [fault?_set, Option.map_eq_none_iff]

theorem fault?_increment_eq_none {path : FieldPath} {delta : Number} {fields : Fields} :
    (increment path delta).fault? fields = none ↔ fields.blocker? path.segments = none
      ∧ ∃ a sum, Json.addend? (fields.getAt? path.segments) = some a ∧ a.add? delta = some sum := by
  rw [fault?_increment]
  cases fields.blocker? path.segments with
  | some s => simp
  | none =>
    cases made : incremented path delta (fields.getAt? path.segments) with
    | ok v =>
      obtain ⟨a, sum, addend, added, -⟩ := incremented_eq_ok.1 made
      simp [addend, added]
    | error e =>
      have none_ : ¬ ∃ a sum, Json.addend? (fields.getAt? path.segments) = some a ∧ a.add? delta = some sum :=
        fun ⟨a, sum, addend, added⟩ => by cases made.symm.trans (incremented_eq_ok.2 ⟨a, sum, addend, added, rfl⟩)
      simpa using none_

/-- A sum that can be taken is what is written. -/
theorem sum_eq {path : FieldPath} {delta a b : Number} {origin : Fields}
    (addend : Json.addend? (origin.getAt? path.segments) = some a) (added : a.add? delta = some b) :
    sum origin path delta = .number b := by
  rw [sum, incremented_eq_ok.2 ⟨a, b, addend, added, rfl⟩]

end Step

/-! ## Updates -/

namespace Changes

variable {c : Changes} {fields after : Fields}

/-- What a body is after changes: every path reads what its entry says, a path apart from all of them reads as before, and the
keys of an object that is not within one of them are in order. -/
structure Effect (c : Changes) (fields after : Fields) : Prop where
  set : ∀ e ∈ c.set, after.getAt? e.1.segments = some e.2
  unset : ∀ p ∈ c.unset, after.getAt? p.segments = Option.none
  inc : ∀ e ∈ c.inc, ∃ a sum, Json.addend? (fields.getAt? e.1.segments) = some a ∧ a.add? e.2 = some sum
    ∧ after.getAt? e.1.segments = some (.number sum)
  signed : ∀ e ∈ c.inc, ∀ m n, (Json.addend? (fields.getAt? e.1.segments)).bind Number.signed? = some m → e.2.signed? = some n →
    ∃ bounds, after.getAt? e.1.segments = some (.number (.whole ⟨m + n, bounds⟩))
  others : ∀ q, (∀ p ∈ c.paths, Apart p.segments q) → after.getAt? q = fields.getAt? q
  order : ∀ q, (∀ p ∈ c.paths, ¬ p.segments <+: q) → ∀ inner, fields.objectAt? q = some inner →
    ∃ inner', after.objectAt? q = some inner' ∧ inner.InOrder inner'

/-- What keeps changes from being made: a value that is no object stands at an ancestor of a path that is to be written, or a
number is to be added where there is none, or where the sum overflows. -/
def Impeded (c : Changes) (fields : Fields) : Prop :=
  (∃ p ∈ c.set.map (·.1) ++ c.inc.map (·.1), ∃ a ∈ p.ancestors, fields.obstructed a.segments = true)
    ∨ ∃ e ∈ c.inc, ∀ a, Json.addend? (fields.getAt? e.1.segments) = some a → a.add? e.2 = Option.none

theorem mem_steps {s : Step} : s ∈ c.steps ↔ (∃ p ∈ c.unset, .unset p = s) ∨ (∃ e ∈ c.set, .set e.1 e.2 = s)
    ∨ ∃ e ∈ c.inc, .increment e.1 e.2 = s := by
  simp only [steps, List.mem_append, List.mem_map, or_assoc]

/-- No change shows a fault exactly where nothing impedes them. -/
theorem faultless_iff : (∀ s ∈ c.steps, s.fault? fields = Option.none) ↔ ¬ c.Impeded fields := by
  have free (p : FieldPath) : fields.blocker? p.segments = Option.none
      ↔ ¬ ∃ a ∈ p.ancestors, fields.obstructed a.segments = true := by
    rw [FieldPath.blocker?_eq_none]
    simp
  constructor
  · rintro faultless (⟨p, mem, obstructed⟩ | ⟨e, mem, impossible⟩)
    · rcases List.mem_append.1 mem with set | inc
      · obtain ⟨e, there, rfl⟩ := List.mem_map.1 set
        exact (free _).1 (Step.fault?_set_eq_none.1 (faultless _ (mem_steps.2 (.inr (.inl ⟨e, there, rfl⟩))))) obstructed
      · obtain ⟨e, there, rfl⟩ := List.mem_map.1 inc
        exact (free _).1 (Step.fault?_increment_eq_none.1 (faultless _ (mem_steps.2 (.inr (.inr ⟨e, there, rfl⟩))))).1 obstructed
    · obtain ⟨-, a, sum, addend, added⟩ :=
        Step.fault?_increment_eq_none.1 (faultless _ (mem_steps.2 (.inr (.inr ⟨e, mem, rfl⟩))))
      cases added.symm.trans (impossible a addend)
  · intro unimpeded s mem
    obtain ⟨obstructed, impossible⟩ := not_or.1 unimpeded
    have unblocked (p : FieldPath) (there : p ∈ c.set.map (·.1) ++ c.inc.map (·.1)) :
        fields.blocker? p.segments = Option.none := (free p).2 fun blocked => obstructed ⟨p, there, blocked⟩
    rcases mem_steps.1 mem with ⟨p, there, rfl⟩ | ⟨e, there, rfl⟩ | ⟨e, there, rfl⟩
    · rfl
    · exact Step.fault?_set_eq_none.2 (unblocked _ (List.mem_append_left _ (List.mem_map_of_mem there)))
    · refine Step.fault?_increment_eq_none.2 ⟨unblocked _ (List.mem_append_right _ (List.mem_map_of_mem there)), ?_⟩
      by_contra impossible'
      exact impossible ⟨e, there, fun a addend => Option.eq_none_iff_forall_not_mem.2 fun sum added =>
        impossible' ⟨a, sum, addend, added⟩⟩

/-- A removed path reads as absent after all changes: the removals come first, so they meet a body that repeats no key. -/
theorem getAt?_unset (apart : c.steps.Pairwise Step.ApartFrom) (distinct : (Json.object fields).tree.Distinct) {p : FieldPath}
    (mem : p ∈ c.unset) : (c.steps.foldl (fun body s => s.make fields body) fields).getAt? p.segments = Option.none := by
  obtain ⟨before, later, split⟩ := List.append_of_mem mem
  have split : c.steps = before.map .unset ++ .unset p
      :: (later.map .unset ++ c.set.map (fun e => .set e.1 e.2) ++ c.inc.map fun e => .increment e.1 e.2) := by
    simp [steps, split]
  rw [split] at apart ⊢
  obtain ⟨-, rest, -⟩ := List.pairwise_append.1 apart
  have still : Fields.Upholds Tree.Distinct ((before.map Step.unset).foldl (fun body s => s.make fields body) fields) := by
    rw [List.foldl_map]
    exact List.foldlRecOn before _ distinct fun body kept p _ => Tree.upheld_distinct.eraseAt kept p.nonempty trivial
  rw [List.foldl_append, List.foldl_cons]
  exact (Step.sameAt_foldl (fun t there => ((List.pairwise_cons.1 rest).1 t there).symm) fields _).1.trans
    (Fields.getAt?_eraseAt_self still)

/-- All changes that nothing impedes, made on a body that repeats no key, have their effect. -/
theorem effect (apart : c.steps.Pairwise Step.ApartFrom) (unimpeded : ¬ c.Impeded fields)
    (distinct : (Json.object fields).tree.Distinct) :
    c.Effect fields (c.steps.foldl (fun body s => s.make fields body) fields) := by
  have faultless := faultless_iff.2 unimpeded
  have written {s : Step} {v : Json} (mem : s ∈ c.steps) (free : fields.blocker? s.path.segments = Option.none)
      (writes : ∀ body, s.make fields body = body.putAt v s.path.segments) :
      (c.steps.foldl (fun body s => s.make fields body) fields).getAt? s.path.segments = some v := by
    obtain ⟨body, before, now⟩ := Step.exists_make_of_mem apart mem fields fields
    rw [now.1, writes]
    exact Fields.getAt?_putAt_self v s.path.nonempty (before.2.trans free)
  have summed (e : FieldPath × Number) (there : e ∈ c.inc) : ∃ a sum, Json.addend? (fields.getAt? e.1.segments) = some a
      ∧ a.add? e.2 = some sum
      ∧ (c.steps.foldl (fun body s => s.make fields body) fields).getAt? e.1.segments = some (.number sum) := by
    have mem : .increment e.1 e.2 ∈ c.steps := mem_steps.2 (.inr (.inr ⟨e, there, rfl⟩))
    obtain ⟨free, a, sum, addend, added⟩ := Step.fault?_increment_eq_none.1 (faultless _ mem)
    exact ⟨a, sum, addend, added, written mem free fun body => by rw [Step.make, Step.sum_eq addend added]; rfl⟩
  refine ⟨fun e there => ?_, fun p there => getAt?_unset apart distinct there, summed, fun e there m n current delta => ?_,
    fun q free => ?_, fun q outside inner found => ?_⟩
  · have mem : .set e.1 e.2 ∈ c.steps := mem_steps.2 (.inr (.inl ⟨e, there, rfl⟩))
    exact written mem (Step.fault?_set_eq_none.1 (faultless _ mem)) fun _ => rfl
  · obtain ⟨a, sum, addend, added, read⟩ := summed e there
    rw [addend, Option.bind_some] at current
    rcases Number.add?_of_signed current delta with ⟨bounds, total, -⟩ | ⟨overflow, -⟩
    · cases added.symm.trans total
      exact ⟨bounds, read⟩
    · cases added.symm.trans overflow
  · exact (Step.sameAt_foldl (fun s mem => free _ (path_mem_of_mem_steps mem)) fields fields).1
  · obtain ⟨inner', there, ordered⟩ :=
      Step.ordered_foldl fields apart (fun s mem => outside _ (path_mem_of_mem_steps mem)) found
    exact ⟨inner', there, ordered.inOrder⟩

/-- An update that has been made has had the effect of its changes. -/
theorem effect_of_apply (apart : conflict? c.paths = Option.none) (distinct : (Json.object fields).tree.Distinct)
    (applied : (Update.change c).apply fields = .ok after) : c.Effect fields after := by
  rw [Update.apply_change apart] at applied
  split at applied
  · cases applied
  · rename_i faultless
    cases applied
    exact effect (steps_apart apart) (faultless_iff.1 (List.findSome?_eq_none_iff.1 faultless)) distinct

end Changes

namespace Update

/-- An accepted operator update has its effect on a body that repeats no key if it succeeds, and it fails exactly where
something impedes it. -/
theorem effect_of_parse {u : Json} {c : Changes} (parsed : parse u = .ok (.change c)) {fields : Fields}
    (distinct : (Json.object fields).tree.Distinct) :
    (∀ after, (change c).apply fields = .ok after → c.Effect fields after)
      ∧ ((∃ e, (change c).apply fields = .error e) ↔ c.Impeded fields) := by
  have apart := (parse_change parsed).1
  refine ⟨fun after made => Changes.effect_of_apply apart distinct made, ?_⟩
  rw [apply_change apart]
  cases faults : c.steps.findSome? (Step.fault? · fields) with
  | none =>
    have unimpeded := Changes.faultless_iff.1 (List.findSome?_eq_none_iff.1 faults)
    refine ⟨fun failed => ?_, fun impeded => absurd impeded unimpeded⟩
    obtain ⟨e, made⟩ := failed
    cases made
  | some e =>
    refine ⟨fun _ => ?_, fun _ => ⟨e, rfl⟩⟩
    by_contra unimpeded
    cases faults.symm.trans (List.findSome?_eq_none_iff.2 (Changes.faultless_iff.2 unimpeded))

/-- An update with all three operators, and a body that it changes. -/
def mixed : Json := .object [("$unset", .array [.string "c"]), ("$set", .object [("a.b", .bool true)]),
  ("$inc", .object [("n", .number (.whole ⟨2, Whole.bounds_two⟩)), ("m.k", .number (.whole ⟨1, Whole.bounds_one⟩))])]
def mixedBody : Fields := [("c", .null), ("n", .number (.whole ⟨40, Whole.bounds_forty⟩)), ("a", .object [("z", .null)])]

theorem effect_of_parse_mixed : ∃ c after, parse mixed = .ok (.change c) ∧ (change c).apply mixedBody = .ok after
    ∧ c.Effect mixedBody after ∧ after.keys = ["n", "a", "m"] := by
  have evaluated : ((parse mixed).toOption.bind fun v => (v.apply mixedBody).toOption.map fun after => (v.hasSet, after.keys))
      = some (true, ["n", "a", "m"]) := by decide +kernel
  obtain ⟨v, read, found⟩ := Option.bind_eq_some_iff.1 evaluated
  obtain ⟨after, made, eq⟩ := Option.map_eq_some_iff.1 found
  obtain ⟨sets, keys⟩ := Prod.mk.inj eq
  have parsed := eq_ok_of_toOption read
  have made := eq_ok_of_toOption made
  have distinct : (Json.object mixedBody).tree.isDistinct = true := by decide +kernel
  cases v with
  | replace body => cases sets
  | change c => exact ⟨c, after, parsed, made, (effect_of_parse parsed distinct).1 after made, keys⟩

end Update

end Dossier
