import Dossier.Update.Apply

/-!
# Writing at a path

`Fields.writeAt` is a write at a path, `Fields.putAt`, unless a value stands in the way of it, which
`Fields.blocker?` finds. Paths that do not overlap stay out of each other's way: what stands at the one, and
what stands in the way of it, is the same after a write or a removal at the other.
-/

namespace Dossier

namespace Fields

/-! ## One key -/

theorem get?_erase_of_ne (fields : Fields) {key other : String} (h : key ≠ other) :
    (fields.erase key).get? other = fields.get? other := by
  induction fields with
  | nil => rfl
  | cons f rest ih =>
    obtain ⟨k, v⟩ := f
    by_cases hk : k = key
    · subst hk; simp [erase, get?, h]
    · by_cases ho : k = other
      · subst ho; simp [erase, get?, hk]
      · simp [erase, get?, hk, ho, ih]

/-! ## Writing -/

/-- Writes a value at a path, unless a value stands in the way. -/
def putAt (v : Json) : List String → Fields → Fields
  | [], fields => fields
  | [leaf], fields => fields.put leaf v
  | s :: rest, fields =>
    match fields.get? s with
    | none => fields.put s (.object (putAt v rest []))
    | some (.object inner) => fields.put s (.object (putAt v rest inner))
    | some _ => fields

/-- The first segment of a path at which a value that is no object stands in the way of what follows. -/
def blocker? : List String → Fields → Option String
  | [], _ => none
  | [_], _ => none
  | s :: rest, fields =>
    match fields.get? s with
    | none => none
    | some (.object inner) => blocker? rest inner
    | some _ => some s

/-- The object under a key, empty where there is nothing. -/
def inner? (fields : Fields) (key : String) : Option Fields :=
  match fields.get? key with
  | none => some []
  | some (.object inner) => some inner
  | some _ => none

section
variable (fields : Fields) (s t : String) (rest : List String) (v : Json)

/-- Below the first of several segments all three walk into the object that is there, or an empty one. -/
theorem putAt_cons : putAt v (s :: t :: rest) fields
    = ((fields.inner? s).map fun inner => fields.put s (.object (putAt v (t :: rest) inner))).getD fields := by
  simp only [putAt, inner?]
  split <;> rfl

theorem getAt?_nil_fields : ∀ segments : List String, getAt? segments [] = none
  | [] | [_] | _ :: _ :: _ => rfl

theorem blocker?_nil_fields : ∀ segments : List String, blocker? segments [] = none
  | [] | [_] | _ :: _ :: _ => rfl

theorem getAt?_cons : getAt? (s :: t :: rest) fields = (fields.inner? s).bind (getAt? (t :: rest)) := by
  simp only [getAt?, inner?]
  split <;> split <;> simp_all [getAt?_nil_fields]

theorem blocker?_cons : blocker? (s :: t :: rest) fields
    = ((fields.inner? s).map (blocker? (t :: rest))).getD (some s) := by
  simp only [blocker?, inner?]
  split <;> simp [blocker?_nil_fields]

end

/-- What is below a key is below the object that is there. -/
theorem getAt?_cons_eq_some {fields : Fields} {s t : String} {rest : List String} {v : Json} :
    getAt? (s :: t :: rest) fields = some v ↔ ∃ inner, fields.get? s = some (.object inner) ∧ getAt? (t :: rest) inner = some v := by
  simp only [getAt?]
  split <;> simp_all

theorem inner?_put_self (fields : Fields) (key : String) (inner : Fields) :
    (fields.put key (.object inner)).inner? key = some inner := by
  simp [inner?]

/-- A write at a path fails at what stands in its way, else with the value it writes. -/
theorem writeAt_eq (path : String) (f : Option Json → Except ApplyError Json) {segments : List String}
    (ne : segments ≠ []) (fields : Fields) :
    writeAt path f segments fields = match blocker? segments fields with
      | some s => .error (.notAContainer path s)
      | none => (f (getAt? segments fields)).map fun v => putAt v segments fields := by
  match segments with
  | [] => exact absurd rfl ne
  | [leaf] => rw [writeAt, blocker?, getAt?]; cases f (fields.get? leaf) <;> rfl
  | s :: t :: rest =>
    have below := fun inner => writeAt_eq path f (List.cons_ne_nil t rest) inner
    rw [blocker?_cons, getAt?_cons, writeAt]
    · simp only [putAt_cons, inner?]
      cases h : fields.get? s with
      | none =>
        simp only [below, blocker?_nil_fields, Option.map_some, Option.getD_some, Option.bind_some]
        cases f (getAt? (t :: rest) []) <;> rfl
      | some j =>
        cases j with
        | object inner =>
          simp only [below, Option.map_some, Option.getD_some, Option.bind_some]
          cases blocker? (t :: rest) inner with
          | some s => rfl
          | none => cases f (getAt? (t :: rest) inner) <;> rfl
        | null | bool | number | string | array => rfl
    · simp

/-- A write that nothing stands in the way of is what is then found. -/
theorem getAt?_putAt_self (v : Json) {segments : List String} (ne : segments ≠ []) {fields : Fields}
    (free : blocker? segments fields = none) : getAt? segments (putAt v segments fields) = some v := by
  match segments with
  | [] => exact absurd rfl ne
  | [leaf] => exact get?_put_self _ _ _
  | s :: t :: rest =>
    rw [blocker?_cons] at free
    rw [putAt_cons]
    cases found : fields.inner? s with
    | none =>
      rw [found] at free
      cases free
    | some inner =>
      rw [found] at free
      rw [Option.map_some, Option.getD_some, getAt?_cons, inner?_put_self, Option.bind_some]
      exact getAt?_putAt_self v (List.cons_ne_nil t rest) free

end Fields

/-! ## Paths apart from each other -/

/-- Neither of two lists of keys goes on where the other ends. -/
def Apart (p q : List String) : Prop := ¬ p <+: q ∧ ¬ q <+: p

theorem Apart.symm {p q : List String} (h : Apart p q) : Apart q p := And.symm h

/-- Two paths apart part at their first key, or below it. -/
theorem Apart.cases_cons {s t : String} {p q : List String} (h : Apart (s :: p) (t :: q)) :
    s ≠ t ∨ s = t ∧ ∃ s' p' t' q', p = s' :: p' ∧ q = t' :: q' ∧ Apart (s' :: p') (t' :: q') := by
  by_cases same : s = t
  · subst same
    have below : Apart p q := by
      refine ⟨fun hp => h.1 ?_, fun hq => h.2 ?_⟩ <;> simpa [List.cons_prefix_cons]
    cases p with
    | nil => exact absurd List.nil_prefix below.1
    | cons s' p' =>
      cases q with
      | nil => exact absurd List.nil_prefix below.2
      | cons t' q' => exact .inr ⟨rfl, s', p', t', q', rfl, rfl, below⟩
  · exact .inl same

theorem Apart.ne_nil {p q : List String} (h : Apart p q) : p ≠ [] ∧ q ≠ [] :=
  ⟨fun e => h.1 (e ▸ List.nil_prefix), fun e => h.2 (e ▸ List.nil_prefix)⟩

theorem FieldPath.apart_of_overlaps {p q : FieldPath} (h : p.overlaps q = false) :
    Apart p.segments q.segments := by
  simpa [overlaps, Apart, ← Bool.not_eq_true] using h

namespace Fields

/-- What two bodies hold at a path, and what stands in its way in them, is the same. -/
def SameAt (q : List String) (a b : Fields) : Prop :=
  getAt? q a = getAt? q b ∧ blocker? q a = blocker? q b

theorem SameAt.of_get? {q : List String} {a b : Fields} {t : String} {rest : List String} (eq : q = t :: rest)
    (h : a.get? t = b.get? t) : SameAt q a b := by
  subst eq
  cases rest with
  | nil => exact ⟨h, rfl⟩
  | cons u rest => simp [SameAt, getAt?_cons, blocker?_cons, inner?, h]

theorem SameAt.below {t u : String} {rest : List String} {a b inner inner' : Fields} (ha : a.inner? t = some inner)
    (hb : b.inner? t = some inner') (h : SameAt (u :: rest) inner inner') : SameAt (t :: u :: rest) a b := by
  simp [SameAt, getAt?_cons, blocker?_cons, ha, hb, h.1, h.2]

/-- A write changes nothing at the paths apart from its own. -/
theorem sameAt_putAt {p q : List String} (h : Apart p q) (v : Json) (fields : Fields) :
    SameAt q (putAt v p fields) fields := by
  match p, q with
  | [], _ => exact absurd rfl h.ne_nil.1
  | _ :: _, [] => exact absurd rfl h.ne_nil.2
  | s :: p, t :: q =>
    rcases h.cases_cons with ne | ⟨rfl, s', p', t', q', rfl, rfl, below⟩
    · refine .of_get? rfl ?_
      cases p with
      | nil => exact get?_put_of_ne _ _ ne
      | cons s' p' =>
        rw [putAt_cons]
        cases fields.inner? s with
        | none => rfl
        | some inner => exact get?_put_of_ne _ _ ne
    · rw [putAt_cons]
      cases found : fields.inner? s with
      | none => exact ⟨rfl, rfl⟩
      | some inner => exact .below (inner?_put_self _ _ _) found (sameAt_putAt below v inner)

/-- A removal changes nothing at the paths apart from its own. -/
theorem sameAt_eraseAt {p q : List String} (h : Apart p q) (fields : Fields) :
    SameAt q (eraseAt p fields) fields := by
  match p, q with
  | [], _ => exact absurd rfl h.ne_nil.1
  | _ :: _, [] => exact absurd rfl h.ne_nil.2
  | s :: p, t :: q =>
    rcases h.cases_cons with ne | ⟨rfl, s', p', t', q', rfl, rfl, below⟩
    · refine .of_get? rfl ?_
      cases p with
      | nil => exact get?_erase_of_ne _ ne
      | cons s' p' =>
        rw [eraseAt]
        · split
          · exact get?_put_of_ne _ _ ne
          · rfl
        · simp
    · rw [eraseAt]
      · split
        · rename_i inner found
          exact .below (inner?_put_self _ _ _) (by simp [inner?, found]) (sameAt_eraseAt below inner)
        · exact ⟨rfl, rfl⟩
      · simp

end Fields

end Dossier
