import Dossier.Proofs.Json.Equal
import Dossier.Proofs.Update.Effect

/-!
# Updates in another order

`Update.reordered`: the operators of an update and the entries of each may be written in any order. The paths of an accepted
update are apart from each other, so what one change makes of what shows at a path does not depend on whether another one
comes before or after it (`Step.shows_comm`).
-/

namespace Dossier

open Outcome

/-- What stands at a path within a value: the value itself at none. -/
def Json.getAt? : List String → Json → Option Json
  | [], v => some v
  | path, .object inner => Fields.getAt? path inner
  | _, _ => none

namespace Fields

variable {fields : Fields} {q r : List String} {v : Json}

theorem getAt?_append {p r : List String} {fields : Fields} (ne : p ≠ []) :
    fields.getAt? (p ++ r) = (fields.getAt? p).bind (Json.getAt? r) := by
  match p with
  | [] => exact absurd rfl ne
  | [s] =>
    cases r with
    | nil =>
      rw [List.append_nil, getAt?]
      cases fields.get? s <;> rfl
    | cons t rest =>
      rw [List.singleton_append, getAt?_cons, getAt?, inner?]
      cases fields.get? s with
      | none => exact getAt?_nil_fields _
      | some j => cases j <;> rfl
  | s :: t :: rest =>
    rw [List.cons_append, List.cons_append, getAt?_cons, getAt?_cons, Option.bind_assoc]
    exact congrArg _ (funext fun inner => getAt?_append (List.cons_ne_nil t rest))

/-- A write that nothing stands in the way of leaves objects on its way. -/
theorem exists_objectAt?_putAt (ne : r ≠ []) (free : fields.blocker? (q ++ r) = none) :
    ∃ inner, (fields.putAt v (q ++ r)).objectAt? q = some inner := by
  induction q generalizing fields with
  | nil => exact ⟨_, rfl⟩
  | cons s rest ih =>
    obtain ⟨t, tail, eq⟩ := List.exists_cons_of_ne_nil (List.append_ne_nil_of_right_ne_nil rest ne)
    rw [List.cons_append, eq, blocker?_cons] at free
    rw [List.cons_append, eq, putAt_cons]
    cases found : fields.inner? s with
    | none =>
      rw [found] at free
      cases free
    | some below =>
      rw [found] at free
      have free' : below.blocker? (rest ++ r) = none := eq ▸ free
      obtain ⟨inner, there⟩ := ih free'
      exact ⟨inner, objectAt?_cons_eq_some.2 ⟨_, get?_put_self _ _ _, eq ▸ there⟩⟩

/-- A removal leaves what shows on its way. -/
theorem kindAt_eraseAt_append (ne : q ≠ []) (ne' : r ≠ []) : (fields.eraseAt (q ++ r)).kindAt q = fields.kindAt q := by
  induction q generalizing fields with
  | nil => exact absurd rfl ne
  | cons s rest ih =>
    obtain ⟨t, tail, eq⟩ := List.exists_cons_of_ne_nil (List.append_ne_nil_of_right_ne_nil rest ne')
    rw [List.cons_append, eq, eraseAt]
    · split
      · rename_i inner found
        cases rest with
        | nil => simp [kindAt, getAt?, found, Kind.of]
        | cons u below =>
          rw [kindAt_below (get?_put_self _ _ _) (List.cons_ne_nil u below), kindAt_below found (List.cons_ne_nil u below), ← eq]
          exact ih (List.cons_ne_nil u below)
      · rfl
    · simp

end Fields

namespace Json.Proper

theorem of_getAt? {q : List String} {fields : Fields} {v : Json} (proper : (object fields).Proper)
    (found : fields.getAt? q = some v) : v.Proper := by
  induction q generalizing fields with
  | nil => cases found
  | cons s rest ih =>
    cases rest with
    | nil => exact proper.entry (Fields.mem_of_get? found)
    | cons t rest =>
      rw [Fields.getAt?] at found
      · split at found
        · rename_i inner entry
          exact ih (proper.entry (Fields.mem_of_get? entry)) found
        · cases found
      · simp

theorem within {q : List String} {v w : Json} (proper : v.Proper) (found : Json.getAt? q v = some w) : w.Proper := by
  cases q with
  | nil =>
    cases found
    exact proper
  | cons s rest =>
    cases v with
    | object inner => exact proper.of_getAt? found
    | _ => cases found

end Json.Proper

/-! ## What changes show -/

namespace Step

open Fields

variable {s t : Step} {steps : List Step} {p q : List String} {origin fields : Fields} {k : Kind}

/-- What a change leaves at its path. -/
def written (origin : Fields) : Step → Option Json
  | unset _ => none
  | set _ v => some v
  | increment path delta => some (sum origin path delta)

/-- What shows at a path after a change, where `k` shows before it. -/
def shows (origin : Fields) (q : List String) (s : Step) (k : Kind) : Kind :=
  if s.path.segments <+: q then .of ((s.written origin).bind (Json.getAt? (q.drop s.path.segments.length)))
  else if q <+: s.path.segments ∧ (s.written origin).isSome then .object
  else k

/-- Nothing stands in the way of what the change writes. -/
def Free (s : Step) (origin fields : Fields) : Prop :=
  (s.written origin).isSome → fields.blocker? s.path.segments = none

theorem getAt?_make_self (free : s.Free origin fields) (distinct : (Json.object fields).tree.Distinct) :
    (s.make origin fields).getAt? s.path.segments = s.written origin := by
  cases s with
  | unset path => exact getAt?_eraseAt_self distinct
  | set path v => exact getAt?_putAt_self v path.nonempty (free rfl)
  | increment path delta => exact getAt?_putAt_self _ path.nonempty (free rfl)

theorem kindAt_make (ne : q ≠ []) (free : s.Free origin fields) (distinct : (Json.object fields).tree.Distinct) :
    (s.make origin fields).kindAt q = s.shows origin q (fields.kindAt q) := by
  rw [shows]
  split
  · rename_i within
    obtain ⟨r, rfl⟩ := within
    rw [kindAt, getAt?_append s.path.nonempty, getAt?_make_self free distinct, List.drop_left]
  · rename_i outside
    split
    · rename_i above
      obtain ⟨⟨r, path⟩, writes⟩ := above
      have ne' := rest_ne_nil path outside
      have nothing := free writes
      rw [← path] at nothing
      have put (v : Json) : (fields.putAt v s.path.segments).kindAt q = .object := by
        obtain ⟨inner, there⟩ := exists_objectAt?_putAt (v := v) ne' nothing
        rw [path] at there
        exact Kind.of_eq_object.2 ⟨inner, (objectAt?_eq_some ne).1 there⟩
      cases s with
      | unset p => cases writes
      | set p v => exact put v
      | increment p delta => exact put _
    · rename_i aside
      by_cases above : q <+: s.path.segments
      · cases s with
        | unset p =>
          obtain ⟨r, path⟩ := above
          have ne' := rest_ne_nil path outside
          have path : q ++ r = p.segments := path
          rw [make, ← path]
          exact kindAt_eraseAt_append ne ne'
        | set p v => exact absurd ⟨above, rfl⟩ aside
        | increment p delta => exact absurd ⟨above, rfl⟩ aside
      · exact congrArg Kind.of (sameAt_make ⟨outside, above⟩ origin fields).1

instance : Std.Symm ApartFrom := ⟨fun _ _ => Apart.symm⟩

/-- Of changes at paths apart, only one has a say about what is within its path. -/
theorem shows_eq_self (apart : ApartFrom s t) (within : s.path.segments <+: q) : t.shows origin q k = k := by
  have below : ¬ t.path.segments <+: q := fun other =>
    (List.prefix_or_prefix_of_prefix within other).elim apart.1 apart.2
  rw [shows, if_neg below, if_neg fun above => apart.1 (within.trans above.1)]

/-- Changes at paths apart show the same in both orders. -/
theorem shows_comm (apart : ApartFrom s t) : t.shows origin q (s.shows origin q k) = s.shows origin q (t.shows origin q k) := by
  by_cases within : s.path.segments <+: q
  · rw [shows_eq_self apart within, shows_eq_self apart within]
  · by_cases within' : t.path.segments <+: q
    · rw [shows_eq_self (Apart.symm apart) within', shows_eq_self (Apart.symm apart) within']
    · simp only [shows, if_neg within, if_neg within']
      split <;> split <;> rfl

/-- What a change writes repeats no key and is equal to itself, and so is all that it holds. -/
def Sound (s : Step) (origin : Fields) : Prop :=
  ∀ v, s.written origin = some v → v.tree.Distinct ∧ ∀ r w, Json.getAt? r v = some w → w.equal w = true

theorem distinct_make (sound : s.Sound origin) (distinct : (Json.object fields).tree.Distinct) :
    (Json.object (s.make origin fields)).tree.Distinct := by
  cases s with
  | unset path => exact Tree.upheld_distinct.eraseAt distinct path.nonempty trivial
  | set path v => exact Tree.upheld_distinct.putAt distinct path.nonempty (sound v rfl).1
  | increment path delta => exact Tree.upheld_distinct.putAt distinct path.nonempty (sound _ rfl).1

/-- What shows after changes that are free to be made: what each of them in turn shows. -/
theorem kindAt_foldl (apart : steps.Pairwise ApartFrom) (free : ∀ s ∈ steps, s.Free origin fields)
    (sound : ∀ s ∈ steps, s.Sound origin) (distinct : (Json.object fields).tree.Distinct) :
    (Json.object (steps.foldl (fun body s => s.make origin body) fields)).tree.Distinct
      ∧ ∀ q ≠ [], (steps.foldl (fun body s => s.make origin body) fields).kindAt q
        = steps.foldl (fun k s => s.shows origin q k) (fields.kindAt q) := by
  induction steps generalizing fields with
  | nil => exact ⟨distinct, fun q _ => rfl⟩
  | cons s rest ih =>
    obtain ⟨first, others⟩ := List.pairwise_cons.1 apart
    obtain ⟨here, later⟩ := List.forall_mem_cons.1 free
    obtain ⟨soundHere, soundLater⟩ := List.forall_mem_cons.1 sound
    have still : ∀ t ∈ rest, t.Free origin (s.make origin fields) := fun t mem writes =>
      (sameAt_make (first t mem) origin fields).2.trans (later t mem writes)
    obtain ⟨distinct', shown⟩ := ih others still soundLater (distinct_make soundHere distinct)
    refine ⟨distinct', fun q ne => ?_⟩
    rw [List.foldl_cons, List.foldl_cons, shown q ne, kindAt_make ne here distinct]

/-- A value that shows after sound changes of a sound body is equal to itself. -/
theorem equal_self_of_shows (sound : s.Sound origin) (before : ∀ v, k = .value v → v.equal v = true) {v : Json}
    (shown : s.shows origin q k = .value v) : v.equal v = true := by
  rw [shows] at shown
  split at shown
  · obtain ⟨w, written, reached⟩ := Option.bind_eq_some_iff.1 (Kind.of_eq_value shown)
    exact (sound w written).2 _ v reached
  · split at shown
    · cases shown
    · exact before v shown

/-- Free and sound changes at paths apart make equal bodies in every order. -/
theorem equal_foldl {steps' : List Step} (perm : steps.Perm steps') (apart : steps.Pairwise ApartFrom)
    (free : ∀ s ∈ steps, s.Free origin fields) (sound : ∀ s ∈ steps, s.Sound origin) (proper : (Json.object fields).Proper) :
    Json.equal (.object (steps.foldl (fun body s => s.make origin body) fields))
      (.object (steps'.foldl (fun body s => s.make origin body) fields)) = true := by
  have apart' : steps'.Pairwise ApartFrom := perm.pairwise apart Apart.symm
  obtain ⟨distinct, shown⟩ := kindAt_foldl apart free sound proper.distinct
  obtain ⟨distinct', shown'⟩ := kindAt_foldl apart' (fun s mem => free s (perm.mem_iff.2 mem))
    (fun s mem => sound s (perm.mem_iff.2 mem)) proper.distinct
  refine Fields.equal_of_kindAt distinct distinct' (fun q ne => ?_) fun q v there => ?_
  · rw [shown q ne, shown' q ne]
    refine perm.foldl_eq' (fun s mem t mem' k => ?_) _
    by_cases same : s = t
    · rw [same]
    · exact shows_comm (apart.forall mem mem' same)
  · have ne : q ≠ [] := by
      rintro rfl
      cases there
    have known : ∀ v, steps.foldl (fun k s => s.shows origin q k) (fields.kindAt q) = .value v → v.equal v = true :=
      List.foldlRecOn steps _ (motive := fun k => ∀ v, k = Kind.value v → v.equal v = true)
        (fun v shown => (proper.of_getAt? (Kind.of_eq_value shown)).equal_self)
        fun k before s mem v shown => equal_self_of_shows (sound s mem) before shown
    exact known v ((shown q ne).symm.trans there)

end Step

/-! ## Reading updates -/

/-- The same value, with the entries or the items at its top in any order. -/
def Json.Shuffled : Json → Json → Prop
  | object fields, object others => fields.Perm others
  | array items, array others => items.Perm others
  | v, w => v = w

namespace Changes

variable {c d : Changes}

/-- The same changes, those of each operator in any order. -/
structure Shuffled (c d : Changes) : Prop where
  set : c.set.Perm d.set
  unset : c.unset.Perm d.unset
  inc : c.inc.Perm d.inc

/-- The changes of several operators together. -/
def sum (parts : List Changes) : Changes := ⟨parts.flatMap set, parts.flatMap unset, parts.flatMap inc⟩

theorem Shuffled.paths (h : Shuffled c d) : c.paths.Perm d.paths :=
  ((h.set.map _).append h.unset).append (h.inc.map _)

theorem Shuffled.steps (h : Shuffled c d) : c.steps.Perm d.steps :=
  ((h.unset.map _).append (h.set.map _)).append (h.inc.map _)

theorem Shuffled.isEmpty (h : Shuffled c d) : c.isEmpty = d.isEmpty := by
  rw [Changes.isEmpty, Changes.isEmpty, h.set.isEmpty_eq, h.unset.isEmpty_eq, h.inc.isEmpty_eq]

theorem Shuffled.conflict? (h : Shuffled c d) (free : Changes.conflict? c.paths = Option.none) :
    Changes.conflict? d.paths = Option.none := by
  refine conflict?_of_pairwise (h.paths.pairwise (conflict?_eq_none free) ?_)
  intro p q apart
  rwa [FieldPath.overlaps, Bool.or_comm]

/-- Parts that are shuffled, and each in itself, are together the same changes. -/
theorem shuffled_sum {parts middle others : List Changes} (perm : parts.Perm middle)
    (each : List.Forall₂ Shuffled middle others) : Shuffled (sum parts) (sum others) := by
  have within : Shuffled (sum middle) (sum others) := by
    clear perm
    induction each with
    | nil => exact ⟨.refl _, .refl _, .refl _⟩
    | cons first _ ih => exact ⟨first.set.append ih.set, first.unset.append ih.unset, first.inc.append ih.inc⟩
  exact ⟨(perm.flatMap_right _).trans within.set, (perm.flatMap_right _).trans within.unset,
    (perm.flatMap_right _).trans within.inc⟩

end Changes

namespace Update

/-- An update with its operators, and the entries of each, in any order. -/
def Reordered (u v : Json) : Prop :=
  ∃ operators middle others, u = .object operators ∧ v = .object others ∧ operators.Perm middle
    ∧ List.Forall₂ (fun e e' : String × Json => e.1 = e'.1 ∧ e.2.Shuffled e'.2) middle others

theorem addOperator_eq (c : Changes) (e : String × Json) : addOperator c e = (addOperator .none e).map fun part =>
    ⟨c.set ++ part.set, c.unset ++ part.unset, c.inc ++ part.inc⟩ := by
  obtain ⟨operator, operand⟩ := e
  unfold addOperator
  simp only
  split
  · cases entries "$set" operand with
    | error e => rfl
    | ok fields => cases made : fields.mapM parseSet <;> simp [made, Changes.none]
  · cases parseUnset operand <;> simp [Changes.none]
  · rename_i operator
    cases entries "$inc" operand with
    | error e => rfl
    | ok fields => cases made : fields.mapM (parseInc "$inc") <;> simp [made, Changes.none]
  · rfl

/-- The operators of an update are read one by one. -/
theorem foldlM_addOperator (c : Changes) (operators : Fields) : operators.foldlM addOperator c
    = (operators.mapM (addOperator .none)).map fun parts =>
      ⟨c.set ++ (Changes.sum parts).set, c.unset ++ (Changes.sum parts).unset, c.inc ++ (Changes.sum parts).inc⟩ := by
  induction operators generalizing c with
  | nil => simp [Changes.sum]
  | cons e rest ih =>
    rw [List.foldlM_cons, List.mapM_cons, addOperator_eq]
    cases addOperator .none e with
    | error e => rfl
    | ok part =>
      simp only [map_ok, ok_bind, ih]
      cases rest.mapM (addOperator .none) with
      | error e => rfl
      | ok parts => simp [Changes.sum]

theorem foldlM_addOperator_none (operators : Fields) :
    operators.foldlM addOperator .none = (operators.mapM (addOperator .none)).map Changes.sum :=
  foldlM_addOperator .none operators

/-- Entries in another order are read, each to what it was. -/
theorem exists_entries {β : Type} {operator : String} {operand operand' : Json} {fields : Fields}
    {f : String × Json → Except CompileError β} {es : List β} (shuffled : operand.Shuffled operand')
    (object : entries operator operand = .ok fields) (read : fields.mapM f = .ok es) :
    ∃ others es', entries operator operand' = .ok others ∧ others.mapM f = .ok es' ∧ es.Perm es' := by
  cases operand with
  | object entries' =>
    cases object
    cases operand' with
    | object others =>
      obtain ⟨es', read', perm⟩ := mapM_perm shuffled read
      exact ⟨others, es', rfl, read', perm⟩
    | _ => cases shuffled
  | _ => cases object

theorem exists_parseUnset {operand operand' : Json} {ps : List FieldPath} (shuffled : operand.Shuffled operand')
    (read : parseUnset operand = .ok ps) : ∃ ps', parseUnset operand' = .ok ps' ∧ ps.Perm ps' := by
  cases operand with
  | object fields =>
    cases operand' with
    | object others => exact mapM_perm shuffled read
    | _ => cases shuffled
  | array items =>
    cases operand' with
    | array others => exact mapM_perm shuffled read
    | _ => cases shuffled
  | _ => cases read

/-- An operator with the entries of its operand in another order is read to the same changes. -/
theorem exists_addOperator {operator : String} {operand operand' : Json} {part : Changes} (shuffled : operand.Shuffled operand')
    (read : addOperator .none (operator, operand) = .ok part) :
    ∃ part', addOperator .none (operator, operand') = .ok part' ∧ part.Shuffled part' := by
  unfold addOperator at read ⊢
  simp only at read ⊢
  split at read
  · obtain ⟨fields, object, read⟩ := bind_eq_ok.1 read
    obtain ⟨es, made, eq⟩ := bind_eq_ok.1 read
    cases eq
    obtain ⟨others, es', object', made', perm⟩ := exists_entries shuffled object made
    exact ⟨⟨es', [], []⟩, by simp [object', made', Changes.none], perm, .refl _, .refl _⟩
  · obtain ⟨ps, made, eq⟩ := bind_eq_ok.1 read
    cases eq
    obtain ⟨ps', made', perm⟩ := exists_parseUnset shuffled made
    exact ⟨⟨[], ps', []⟩, by simp [made', Changes.none], .refl _, perm, .refl _⟩
  · obtain ⟨fields, object, read⟩ := bind_eq_ok.1 read
    obtain ⟨es, made, eq⟩ := bind_eq_ok.1 read
    cases eq
    obtain ⟨others, es', object', made', perm⟩ := exists_entries shuffled object made
    exact ⟨⟨[], [], es'⟩, by simp [object', made', Changes.none], .refl _, .refl _, perm⟩
  · cases read

theorem exists_mapM_addOperator {operators others : Fields} {parts : List Changes}
    (each : List.Forall₂ (fun e e' : String × Json => e.1 = e'.1 ∧ e.2.Shuffled e'.2) operators others)
    (read : operators.mapM (addOperator .none) = .ok parts) :
    ∃ parts', others.mapM (addOperator .none) = .ok parts' ∧ List.Forall₂ Changes.Shuffled parts parts' := by
  induction each generalizing parts with
  | nil =>
    cases read
    exact ⟨[], rfl, .nil⟩
  | @cons e e' _ _ first _ ih =>
    obtain ⟨part, rest, here, later, rfl⟩ := mapM_cons_eq_ok.1 read
    obtain ⟨operator, operand⟩ := e
    obtain ⟨operator', operand'⟩ := e'
    obtain ⟨same, shuffled⟩ := first
    cases same
    obtain ⟨part', here', alike⟩ := exists_addOperator shuffled here
    obtain ⟨rest', later', others⟩ := ih later
    exact ⟨part' :: rest', mapM_cons_eq_ok.2 ⟨part', rest', here', later', rfl⟩, .cons alike others⟩

/-- Operators that are read to changes make an update of them, if there is a change and no two paths overlap. -/
theorem parse_of_operators {operators : Fields} {c : Changes} (read : operators.foldlM addOperator .none = .ok c)
    (some_ : c.isEmpty = false) (free : Changes.conflict? c.paths = none) : parse (.object operators) = .ok (.change c) := by
  have known : ∀ operator ∈ ["$set", "$unset", "$inc"], isOperatorKey operator = true := by decide +kernel
  have keys : ∀ e ∈ operators, isOperatorKey e.1 = true := by
    rw [foldlM_addOperator_none] at read
    obtain ⟨parts, all, -⟩ := map_eq_ok.1 read
    intro e mem
    obtain ⟨part, -, here⟩ := exists_of_mem_mapM all mem
    obtain ⟨operator, operand⟩ := e
    unfold addOperator at here
    simp only at here
    split at here
    · exact known _ (by simp)
    · exact known _ (by simp)
    · exact known _ (by simp)
    · cases here
  have ne : operators ≠ [] := by
    rintro rfl
    cases read
    cases some_
  obtain ⟨e, rest, rfl⟩ := List.exists_cons_of_ne_nil ne
  have any : (e :: rest).any (fun e => isOperatorKey e.1) = true := List.any_eq_true.2 ⟨e, List.mem_cons_self, keys e List.mem_cons_self⟩
  have all : (e :: rest).all (fun e => isOperatorKey e.1) = true := List.all_eq_true.2 keys
  rw [parse, List.isEmpty_cons, if_neg Bool.false_ne_true, if_pos any, if_pos all, parseOperators, read]
  simp [some_, free]

/-- An accepted update is accepted in every order of its operators and of the entries of each. -/
theorem exists_parse {u v : Json} {c : Changes} (reordered : Reordered u v) (parsed : parse u = .ok (.change c)) :
    ∃ d, parse v = .ok (.change d) ∧ c.Shuffled d := by
  obtain ⟨operators, middle, others, rfl, rfl, perm, each⟩ := reordered
  obtain ⟨free, some_⟩ := parse_change parsed
  obtain ⟨fields, eq, read⟩ := parse_operators parsed
  cases eq
  rw [foldlM_addOperator_none] at read
  obtain ⟨parts, made, rfl⟩ := map_eq_ok.1 read
  obtain ⟨parts', made', shuffle⟩ := mapM_perm perm made
  obtain ⟨parts'', made'', alike⟩ := exists_mapM_addOperator each made'
  have shuffled := Changes.shuffled_sum shuffle alike
  refine ⟨_, parse_of_operators ?_ (shuffled.isEmpty ▸ some_) (shuffled.conflict? free), shuffled⟩
  rw [foldlM_addOperator_none, made'', map_ok]

/-- The changes of an accepted update of proper values are free to be made and sound where none of them shows a fault. -/
theorem free_and_sound {u : Json} {c : Changes} (proper : u.Proper) (parsed : parse u = .ok (.change c)) {fields : Fields}
    {s : Step} (mem : s ∈ c.steps) (faultless : s.fault? fields = none) : s.Free fields fields ∧ s.Sound fields := by
  rcases Changes.mem_steps.1 mem with ⟨p, -, rfl⟩ | ⟨e, there, rfl⟩ | ⟨e, there, rfl⟩
  · refine ⟨fun writes => ?_, fun v written => ?_⟩
    · cases writes
    · cases written
  · obtain ⟨operators, rfl, sets⟩ := parse_set parsed
    obtain ⟨operator, entries, key, operand, entry⟩ := sets e there
    have value : e.2.Proper := (proper.entry operand).entry entry
    refine ⟨fun _ => Step.fault?_set_eq_none.1 faultless, fun v written => ?_⟩
    cases written
    exact ⟨value.distinct, fun r w found => (value.within found).equal_self⟩
  · obtain ⟨free, a, sum, addend, added⟩ := Step.fault?_increment_eq_none.1 faultless
    refine ⟨fun _ => free, fun v written => ?_⟩
    obtain rfl : Json.number sum = v := (Step.sum_eq addend added).symm.trans (Option.some.inj written)
    refine ⟨rfl, fun r w found => ?_⟩
    cases r with
    | nil =>
      cases found
      exact Number.equal_self_of_add? added
    | cons => cases found

/-- An accepted operator update, its operators and the entries of each in any order: it is accepted, it succeeds on the same
bodies, and it makes equal bodies of them. -/
theorem reordered {u v : Json} {c : Changes} (reordered : Reordered u v) (proper : u.Proper)
    (parsed : parse u = .ok (.change c)) : ∃ d, parse v = .ok (.change d) ∧ ∀ fields, (Json.object fields).Proper →
      ((∃ after, (change c).apply fields = .ok after) ↔ ∃ after, (change d).apply fields = .ok after)
      ∧ ∀ after after', (change c).apply fields = .ok after → (change d).apply fields = .ok after' →
        Json.equal (.object after) (.object after') = true := by
  obtain ⟨d, parsed', shuffled⟩ := exists_parse reordered parsed
  refine ⟨d, parsed', fun fields body => ?_⟩
  have free := (parse_change parsed).1
  have faults : c.steps.findSome? (Step.fault? · fields) = none ↔ d.steps.findSome? (Step.fault? · fields) = none := by
    rw [List.findSome?_eq_none_iff, List.findSome?_eq_none_iff]
    exact forall_congr' fun s => imp_congr_left shuffled.steps.mem_iff
  rw [apply_change free, apply_change (parse_change parsed').1]
  cases faultless : c.steps.findSome? (Step.fault? · fields) with
  | some e =>
    cases faultless' : d.steps.findSome? (Step.fault? · fields) with
    | some e' => exact ⟨by simp, by simp⟩
    | none => cases faultless.symm.trans (faults.2 faultless')
  | none =>
    rw [faults.1 faultless]
    refine ⟨by simp, fun after after' made made' => ?_⟩
    cases made
    cases made'
    have each {s : Step} (mem : s ∈ c.steps) := free_and_sound proper parsed mem (List.findSome?_eq_none_iff.1 faultless s mem)
    exact Step.equal_foldl shuffled.steps (Changes.steps_apart free) (fun s mem => (each mem).1) (fun s mem => (each mem).2) body

/-- The update `mixed` with its operators, and the entries of one of them, in another order. -/
def mixedAgain : Json := .object [("$inc", .object [("m.k", .number (.whole ⟨1, Whole.bounds_one⟩)),
  ("n", .number (.whole ⟨2, Whole.bounds_two⟩))]), ("$unset", .array [.string "c"]), ("$set", .object [("a.b", .bool true)])]

theorem reordered_mixed : ∃ c d after after', parse mixed = .ok (.change c) ∧ parse mixedAgain = .ok (.change d)
    ∧ (change c).apply mixedBody = .ok after ∧ (change d).apply mixedBody = .ok after'
    ∧ Json.equal (.object after) (.object after') = true := by
  have evaluated : ((parse mixed).toOption.bind fun v => (v.apply mixedBody).toOption.map fun _ => v.hasSet) = some true := by
    decide +kernel
  obtain ⟨v, read, found⟩ := Option.bind_eq_some_iff.1 evaluated
  obtain ⟨after, made, sets⟩ := Option.map_eq_some_iff.1 found
  have parsed := eq_ok_of_toOption read
  have order : Reordered mixed mixedAgain := by
    refine ⟨_, _, _, rfl, rfl, .trans (.cons _ (.swap ..)) (.swap ..), ?_⟩
    exact .cons ⟨rfl, .swap ..⟩ (.cons ⟨rfl, .refl _⟩ (.cons ⟨rfl, .refl _⟩ .nil))
  have proper : mixed.Proper := ⟨by decide +kernel, by unfold Tree.Distinct; decide +kernel⟩
  have body : (Json.object mixedBody).Proper := ⟨by decide +kernel, by unfold Tree.Distinct; decide +kernel⟩
  cases v with
  | replace body => cases sets
  | change c =>
    obtain ⟨d, parsed', alike⟩ := reordered order proper parsed
    obtain ⟨succeeds, equal⟩ := alike mixedBody body
    obtain ⟨after', made'⟩ := succeeds.1 ⟨after, eq_ok_of_toOption made⟩
    exact ⟨c, d, after, after', parsed, parsed', eq_ok_of_toOption made, made', equal _ _ (eq_ok_of_toOption made) made'⟩

end Update

end Dossier
