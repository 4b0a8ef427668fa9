import Dossier.Proofs.Update.Reordering

/-!
# The language of updates

Which JSON values are updates, and of what (`Update.Spells`): a body, or operators over targets of which none is a prefix of
another one. The language is stated on the value alone. `Update.parse_eq_ok_iff_spells`: what is read is what is spelled, and
nothing else is read.
-/

namespace Dossier

open Outcome

/-- A sequence of steps succeeds where each step does. -/
theorem Outcome.mapM_eq_ok_iff_forall₂ {ε α β : Type} {f : α → Except ε β} {l : List α} {ys : List β} :
    l.mapM f = .ok ys ↔ List.Forall₂ (fun x y => f x = .ok y) l ys := by
  induction l generalizing ys with
  | nil => exact ⟨fun made => by cases made; exact .nil, fun each => by cases each; rfl⟩
  | cons x rest ih =>
    rw [mapM_cons_eq_ok]
    constructor
    · rintro ⟨y, others, here, later, rfl⟩
      exact .cons here (ih.1 later)
    · rintro (_ | ⟨here, later⟩)
      exact ⟨_, _, here, ih.2 later, rfl⟩

namespace Update

/-! ## The language -/

/-- A text that names a path to change. -/
structure IsTarget (raw : String) (path : FieldPath) : Prop where
  text : path.text = raw
  short : raw.utf8ByteSize ≤ FieldPath.lengthLimit
  free : isReserved path.head = false

/-- One operator with its operand, and the changes that it spells in the order of the operand. -/
inductive SpellsOperator : String × Json → Changes → Prop
  | set {entries : Fields} {set : List (FieldPath × Json)}
    (each : List.Forall₂ (fun e s => IsTarget e.1 s.1 ∧ e.2 = s.2) entries set) :
    SpellsOperator ("$set", .object entries) ⟨set, [], []⟩
  | unset {entries : Fields} {unset : List FieldPath} (each : List.Forall₂ (fun e p => IsTarget e.1 p) entries unset) :
    SpellsOperator ("$unset", .object entries) ⟨[], unset, []⟩
  | unsetAll {items : List Json} {unset : List FieldPath}
    (each : List.Forall₂ (fun item p => ∃ raw, item = .string raw ∧ IsTarget raw p) items unset) :
    SpellsOperator ("$unset", .array items) ⟨[], unset, []⟩
  | inc {entries : Fields} {inc : List (FieldPath × Number)}
    (each : List.Forall₂ (fun e i => IsTarget e.1 i.1 ∧ e.2 = .number i.2) entries inc) :
    SpellsOperator ("$inc", .object entries) ⟨[], [], inc⟩

/-- The JSON values that are updates, with what they spell. -/
inductive Spells : Json → Update → Prop
  | replace {fields : Fields} (some_ : fields ≠ [])
    (plain : ∀ key ∈ Fields.keys fields, isOperatorKey key = false ∧ isReserved key = false) :
    Spells (.object fields) (.replace fields)
  | change {operators : Fields} {parts : List Changes} (each : List.Forall₂ SpellsOperator operators parts)
    (some_ : (Changes.sum parts).paths ≠ [])
    (apart : (Changes.sum parts).paths.Pairwise fun p q => ¬ p.segments <+: q.segments ∧ ¬ q.segments <+: p.segments) :
    Spells (.object operators) (.change (Changes.sum parts))

/-! ## Reading -/

theorem parsePath_eq_ok_iff {raw : String} {path : FieldPath} : parsePath raw = .ok path ↔ IsTarget raw path := by
  constructor
  · intro h
    obtain ⟨parsed, free⟩ := parsePath_eq_ok h
    obtain ⟨text, short⟩ := FieldPath.parse_eq_ok_iff.1 parsed
    exact ⟨text, short, free⟩
  · rintro ⟨text, short, free⟩
    rw [parsePath, FieldPath.parse_eq_ok_iff.2 ⟨text, short⟩]
    simp [free]

theorem parseSet_eq_ok_iff {e : String × Json} {s : FieldPath × Json} :
    parseSet e = .ok s ↔ IsTarget e.1 s.1 ∧ e.2 = s.2 := by
  obtain ⟨path, value⟩ := s
  simp [parseSet, bind_eq_ok, parsePath_eq_ok_iff]

theorem parseInc_eq_ok_iff {operator : String} {e : String × Json} {i : FieldPath × Number} :
    parseInc operator e = .ok i ↔ IsTarget e.1 i.1 ∧ e.2 = .number i.2 := by
  obtain ⟨raw, value⟩ := e
  obtain ⟨path, n⟩ := i
  cases value with
  | number m => simp [parseInc, bind_eq_ok, parsePath_eq_ok_iff]
  | null | bool | string | array | object => simp [parseInc]

theorem parseUnsetItem_eq_ok_iff {item : Json} {p : FieldPath} :
    parseUnsetItem item = .ok p ↔ ∃ raw, item = .string raw ∧ IsTarget raw p := by
  cases item with
  | string raw => simp [parseUnsetItem, parsePath_eq_ok_iff]
  | null | bool | number | array | object => simp [parseUnsetItem]

theorem entries_eq_ok_iff {operator : String} {operand : Json} {fields : Fields} :
    entries operator operand = .ok fields ↔ operand = .object fields := by
  cases operand <;> simp [entries]

/-- Each operator is read to the changes that it spells. -/
theorem addOperator_none_eq_ok_iff {e : String × Json} {part : Changes} :
    addOperator .none e = .ok part ↔ SpellsOperator e part := by
  constructor
  · intro h
    obtain ⟨operator, operand⟩ := e
    unfold addOperator at h
    simp only at h
    split at h
    · obtain ⟨fields, object, h⟩ := bind_eq_ok.1 h
      obtain ⟨set, read, eq⟩ := bind_eq_ok.1 h
      cases eq
      cases entries_eq_ok_iff.1 object
      exact .set ((mapM_eq_ok_iff_forall₂.1 read).imp fun _ _ => parseSet_eq_ok_iff.1)
    · obtain ⟨unset, read, eq⟩ := bind_eq_ok.1 h
      cases eq
      cases operand with
      | object fields => exact .unset ((mapM_eq_ok_iff_forall₂.1 read).imp fun _ _ => parsePath_eq_ok_iff.1)
      | array items => exact .unsetAll ((mapM_eq_ok_iff_forall₂.1 read).imp fun _ _ => parseUnsetItem_eq_ok_iff.1)
      | null | bool | number | string => cases read
    · obtain ⟨fields, object, h⟩ := bind_eq_ok.1 h
      obtain ⟨inc, read, eq⟩ := bind_eq_ok.1 h
      cases eq
      cases entries_eq_ok_iff.1 object
      exact .inc ((mapM_eq_ok_iff_forall₂.1 read).imp fun _ _ => parseInc_eq_ok_iff.1)
    · cases h
  · intro spelled
    cases spelled with
    | set each =>
      have read := mapM_eq_ok_iff_forall₂.2 (each.imp fun _ _ => parseSet_eq_ok_iff.2)
      simp [addOperator, entries, read, Changes.none]
    | unset each =>
      have read := mapM_eq_ok_iff_forall₂.2 (each.imp fun _ _ => parsePath_eq_ok_iff.2)
      simp [addOperator, parseUnset, read, Changes.none]
    | unsetAll each =>
      have read := mapM_eq_ok_iff_forall₂.2 (each.imp fun _ _ => parseUnsetItem_eq_ok_iff.2)
      simp [addOperator, parseUnset, read, Changes.none]
    | @inc members _ each =>
      have read : members.mapM (parseInc "$inc") = .ok _ := mapM_eq_ok_iff_forall₂.2 (each.imp fun _ _ => parseInc_eq_ok_iff.2)
      simp [addOperator, entries, read, Changes.none]

theorem foldlM_addOperator_eq_ok_iff {operators : Fields} {c : Changes} :
    operators.foldlM addOperator .none = .ok c ↔ ∃ parts, List.Forall₂ SpellsOperator operators parts ∧ Changes.sum parts = c := by
  rw [foldlM_addOperator_none, map_eq_ok]
  refine exists_congr fun parts => and_congr_left' ?_
  rw [mapM_eq_ok_iff_forall₂]
  exact ⟨fun each => each.imp fun _ _ => addOperator_none_eq_ok_iff.1,
    fun each => each.imp fun _ _ => addOperator_none_eq_ok_iff.2⟩

theorem isEmpty_eq_false_iff (c : Changes) : c.isEmpty = false ↔ c.paths ≠ [] := by
  obtain ⟨set, unset, inc⟩ := c
  cases set <;> cases unset <;> cases inc <;> simp [Changes.isEmpty, Changes.paths]

/-- No path overlaps a later one where none is a prefix of the other. -/
theorem conflict?_eq_none_iff {paths : List FieldPath} : Changes.conflict? paths = none
    ↔ paths.Pairwise fun p q => ¬ p.segments <+: q.segments ∧ ¬ q.segments <+: p.segments := by
  have same : ∀ p q : FieldPath, p.overlaps q = false ↔ ¬ p.segments <+: q.segments ∧ ¬ q.segments <+: p.segments := by
    intro p q
    rw [FieldPath.overlaps, Bool.or_eq_false_iff]
    exact and_congr (by rw [← List.isPrefixOf_iff_prefix, Bool.not_eq_true]) (by rw [← List.isPrefixOf_iff_prefix, Bool.not_eq_true])
  exact ⟨fun free => (Changes.conflict?_eq_none free).imp fun {p q} => (same p q).1,
    fun apart => Changes.conflict?_of_pairwise (apart.imp fun {p q} => (same p q).2)⟩

/-- An object without operators is read as the body that it is, if no field is reserved. -/
theorem parse_replace_iff {u : Json} {body : Fields} : parse u = .ok (.replace body)
    ↔ u = .object body ∧ body ≠ [] ∧ ∀ key ∈ Fields.keys body, isOperatorKey key = false ∧ isReserved key = false := by
  constructor
  · intro h
    unfold parse at h
    split at h
    · rename_i fields
      split at h
      · cases h
      rename_i some_
      split at h
      · split at h
        · obtain ⟨_, -, other⟩ := map_eq_ok.1 h
          cases other
        · cases h
      rename_i plain
      split at h
      · cases h
      · rename_i free
        cases h
        refine ⟨rfl, by simpa using some_, fun key mem => ⟨?_, by simpa using List.find?_eq_none.1 free key mem⟩⟩
        obtain ⟨e, there, rfl⟩ := List.mem_map.1 mem
        exact Bool.eq_false_iff.2 fun operator => plain (List.any_eq_true.2 ⟨e, there, operator⟩)
    · cases h
  · rintro ⟨rfl, some_, plain⟩
    have operators : body.any (fun e => isOperatorKey e.1) = false :=
      List.any_eq_false.2 fun e mem => by simp [(plain e.1 (List.mem_map_of_mem mem)).1]
    have reserved : (Fields.keys body).find? isReserved = none :=
      List.find?_eq_none.2 fun key mem => by simp [(plain key mem).2]
    rw [parse, if_neg (by simpa using some_), operators, if_neg Bool.false_ne_true, reserved]

/-- The updates that are read are those of the language, each as what it spells. -/
theorem parse_eq_ok_iff_spells (u : Json) (v : Update) : parse u = .ok v ↔ Spells u v := by
  constructor
  · intro parsed
    cases v with
    | replace body =>
      obtain ⟨rfl, some_, plain⟩ := parse_replace_iff.1 parsed
      exact .replace some_ plain
    | change c =>
      obtain ⟨operators, rfl, read⟩ := parse_operators parsed
      obtain ⟨free, some_⟩ := parse_change parsed
      obtain ⟨parts, each, rfl⟩ := foldlM_addOperator_eq_ok_iff.1 read
      exact .change each ((isEmpty_eq_false_iff _).1 some_) (conflict?_eq_none_iff.1 free)
  · intro spelled
    cases spelled with
    | replace some_ plain => exact parse_replace_iff.2 ⟨rfl, some_, plain⟩
    | change each some_ apart =>
      exact parse_of_operators (foldlM_addOperator_eq_ok_iff.2 ⟨_, each, rfl⟩) ((isEmpty_eq_false_iff _).2 some_)
        (conflict?_eq_none_iff.2 apart)

end Update

end Dossier
