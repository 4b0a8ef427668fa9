import Dossier.Database.Select
import Dossier.Proofs.Outcome
import Mathlib.Data.List.Forall2

/-!
# Rows that read alike

Two rows are twins if they differ at most in their promoted columns, and in their times unless those are compared
too. Where the promoted columns mirror the body, filters and listings find in twins the same values, whichever paths
are promoted: an operand of a promoted path compares like an extraction.
-/

namespace Dossier

open Outcome

theorem Outcome.Agree.mapM {ε α β γ δ : Type} {ρ : α → β → Prop} {σ : γ → δ → Prop} {f : α → Except ε γ} {g : β → Except ε δ}
    {xs : List α} {ys : List β} (h : List.Forall₂ ρ xs ys) (each : ∀ x y, ρ x y → Agree σ (f x) (g y)) :
    Agree (List.Forall₂ σ) (xs.mapM f) (ys.mapM g) := by
  induction h with
  | nil => exact .nil
  | cons first _ ih =>
    rw [List.mapM_cons, List.mapM_cons]
    exact (each _ _ first).bind fun _ _ one => ih.bind fun _ _ others => .cons one others

/-! ## Fields -/

/-- The field is no time. -/
def FieldRef.Timeless (f : FieldRef) : Prop := f ≠ .system .createdAt ∧ f ≠ .system .updatedAt

/-- The filter asks for no time. -/
def Filter.Timeless (f : Filter) : Prop := ∀ c ∈ f.clauses, c.field.Timeless

/-- The listing does not sort by a time. -/
def Listing.Timeless (l : Listing) : Prop := ∀ k ∈ l.keys, k.field.Timeless

/-! ## Values -/

theorem Value.test_blob (op : Value.Comparison) (c : Value.Collation) (x y : Value) :
    Value.test op .blob c x y = Value.test op .none c x y := rfl

theorem Value.member_blob (c : Value.Collation) (x : Value) (ys : List Value) :
    Value.member .blob c x ys = Value.member .none c x ys := rfl

/-- The operand reads from a body, or from a column that mirrors one. -/
def Operand.OfBody : Operand → Prop
  | .system _ => False
  | .promoted _ | .extract _ => True

/-- A condition is as true of one operand as of another with the same value, if both read from bodies. -/
theorem Condition.holds_term_of_body {x x' : Operand} (body : x.OfBody) (body' : x'.OfBody) {read read' : Operand → Value}
    (value : read x = read' x') (c : Condition) : (c.term x).holds read = (c.term x').holds read' := by
  have compares : ∀ op operand, (compareTerm x op operand).holds read = (compareTerm x' op operand).holds read' := by
    intro op operand
    cases x <;> first | exact body.elim | cases x' <;> first | exact body'.elim | skip
    all_goals
      cases op <;> cases operand <;>
        simp only [compareTerm, Term.holds, Operand.affinity, Value.test_blob, value]
  cases c with
  | compare op operand => exact compares op operand
  | member negated items =>
    cases items with
    | nil => rfl
    | cons item rest =>
      cases x <;> first | exact body.elim | cases x' <;> first | exact body'.elim | skip
      all_goals simp only [Condition.term, Term.holds, Operand.affinity, Value.member_blob, value]
  | present wanted => cases wanted <;> simp only [Condition.term, Term.holds, value]
  | pattern regex => simp only [Condition.term, Term.holds, value]

/-- The truth of a condition is told by the value of its operand. -/
theorem Condition.holds_term_congr (x : Operand) {read read' : Operand → Value} (value : read x = read' x) (c : Condition) :
    (c.term x).holds read = (c.term x).holds read' := by
  cases c with
  | compare op operand =>
    cases x <;> cases op <;> cases operand <;> simp only [Condition.term, compareTerm, Term.holds, value]
  | member negated items => cases items <;> simp only [Condition.term, Term.holds, value]
  | present wanted => cases wanted <;> simp only [Condition.term, Term.holds, value]
  | pattern regex => simp only [Condition.term, Term.holds, value]

theorem Resolver.operand_body (resolver : Resolver) (path : FieldPath) : (resolver.operand (.body path)).OfBody := by
  rw [operand]
  split <;> trivial

/-! ## Rows -/

namespace Row

/-- The rows differ at most in their promoted columns and, unless they are `timed`, in their times. -/
structure Twin (timed : Prop) (r r' : Row) : Prop where
  rowid : r.rowid = r'.rowid
  id : r.id = r'.id
  data : r.data = r'.data
  times : timed → r.createdAt = r'.createdAt ∧ r.updatedAt = r'.updatedAt

/-- The columns of the promoted paths hold what the body holds at them. -/
def Mirrored (resolver : Resolver) (r : Row) : Prop :=
  ∀ p ∈ resolver.promoted, r.promotedValue p.column = r.data.extract p

/-- Twins whose columns mirror their bodies, each for the paths of a resolver of its own. -/
structure Alike (timed : Prop) (resolver resolver' : Resolver) (r r' : Row) : Prop where
  twin : r.Twin timed r'
  mirrored : r.Mirrored resolver
  mirrored' : r'.Mirrored resolver'

variable {timed : Prop} {resolver resolver' : Resolver} {r r' : Row}

theorem Mirrored.read_body (h : r.Mirrored resolver) (path : FieldPath) :
    r.read (resolver.operand (.body path)) = r.data.extract path := by
  unfold Resolver.operand
  by_cases promoted : resolver.isPromoted path = true
  · simp only [promoted, if_true, read]
    exact h path (by simpa [Resolver.isPromoted] using promoted)
  · simp only [promoted, Bool.false_eq_true, if_false, read]

theorem Alike.read (h : r.Alike timed resolver resolver' r') {f : FieldRef} (apt : timed ∨ f.Timeless) :
    r.read (resolver.operand f) = r'.read (resolver'.operand f) := by
  cases f with
  | body path => rw [h.mirrored.read_body, h.mirrored'.read_body, h.twin.data]
  | system column =>
    cases column with
    | id => exact congrArg Value.text h.twin.id
    | createdAt => exact congrArg Value.integer (h.twin.times (apt.resolve_right fun no => no.1 rfl)).1
    | updatedAt => exact congrArg Value.integer (h.twin.times (apt.resolve_right fun no => no.2 rfl)).2

/-- A filter is as true of one row as of one that is alike. -/
theorem Alike.holds (h : r.Alike timed resolver resolver' r') {f : Filter} (apt : timed ∨ f.Timeless) :
    (f.predicate resolver).holds r.read = (f.predicate resolver').holds r'.read := by
  have conditions : ∀ c ∈ f.clauses, (c.conditions.map (Condition.term (resolver.operand c.field))).map (Term.holds r.read)
      = (c.conditions.map (Condition.term (resolver'.operand c.field))).map (Term.holds r'.read) := by
    intro c mem
    have value := h.read (apt.imp_right fun timeless => timeless c mem)
    rw [List.map_map, List.map_map]
    refine List.map_congr_left fun condition _ => ?_
    cases field : c.field with
    | system column => exact condition.holds_term_congr _ (by rw [field] at value; exact value)
    | body path =>
      rw [field] at value
      exact condition.holds_term_of_body (Resolver.operand_body _ _) (Resolver.operand_body _ _) value
  unfold Predicate.holds Filter.predicate
  rw [List.map_flatMap, List.map_flatMap, List.flatMap_def, List.flatMap_def, List.map_congr_left conditions]

/-! ## Lists of rows -/

/-- Rows that are alike one by one. -/
abbrev AllAlike (timed : Prop) (resolver resolver' : Resolver) : List Row → List Row → Prop :=
  List.Forall₂ (Alike timed resolver resolver')

variable {rows rows' : List Row}

theorem AllAlike.filter (h : AllAlike timed resolver resolver' rows rows') {p p' : Row → Bool}
    (same : ∀ r r' : Row, r.Alike timed resolver resolver' r' → p r = p' r') :
    AllAlike timed resolver resolver' (rows.filter p) (rows'.filter p') := by
  induction h with
  | nil => exact .nil
  | cons first _ ih =>
    rw [List.filter_cons, List.filter_cons, same _ _ first]
    split
    · exact .cons first ih
    · exact ih

theorem AllAlike.select (h : AllAlike timed resolver resolver' rows rows') {f : Filter} (apt : timed ∨ f.Timeless) :
    AllAlike timed resolver resolver' (rows.filter fun r => ((f.predicate resolver).holds r.read).isTrue)
      (rows'.filter fun r => ((f.predicate resolver').holds r.read).isTrue) :=
  h.filter fun _ _ alike => by rw [alike.holds apt]

theorem Alike.order (key : SortKey) (apt : timed ∨ key.field.Timeless) {a a' b b' : Row}
    (h : a.Alike timed resolver resolver' a') (h' : b.Alike timed resolver resolver' b') :
    key.order resolver a b = key.order resolver' a' b' := by
  unfold SortKey.order
  rw [h.read apt, h'.read apt]

theorem Alike.orderAll {keys : List SortKey} (apt : timed ∨ ∀ k ∈ keys, k.field.Timeless) {a a' b b' : Row}
    (h : a.Alike timed resolver resolver' a') (h' : b.Alike timed resolver resolver' b') :
    SortKey.orderAll resolver keys a b = SortKey.orderAll resolver' keys a' b' := by
  induction keys with
  | nil => rfl
  | cons key rest ih =>
    rw [SortKey.orderAll, SortKey.orderAll, h.order key (apt.imp_right fun all => all key List.mem_cons_self) h',
      ih (apt.imp_right fun all k mem => all k (List.mem_cons_of_mem _ mem))]

theorem AllAlike.sorted (h : AllAlike timed resolver resolver' rows rows') {l : Listing} (apt : timed ∨ l.Timeless) :
    AllAlike timed resolver resolver' (l.sorted resolver rows) (l.sorted resolver' rows') := by
  have pairs : ∀ p ∈ rows.zip rows', p.1.Alike timed resolver resolver' p.2 := fun p mem => List.forall₂_zip h mem
  have length := h.length_eq
  have firsts : (rows.zip rows').map Prod.fst = rows := List.map_fst_zip (Nat.le_of_eq length)
  have seconds : (rows.zip rows').map Prod.snd = rows' := List.map_snd_zip (Nat.le_of_eq length.symm)
  -- the pairs are sorted once, and either side of them is the order of one list
  let before := fun a b : Row × Row => SortKey.orderAll resolver l.keys a.1 b.1 != .gt
  have left : ((rows.zip rows').mergeSort before).map Prod.fst = l.sorted resolver rows := by
    rw [Listing.sorted]
    refine (List.map_mergeSort (s := fun a b => SortKey.orderAll resolver l.keys a b != .gt) fun a _ b _ => rfl).trans ?_
    rw [firsts]
  have right : ((rows.zip rows').mergeSort before).map Prod.snd = l.sorted resolver' rows' := by
    rw [Listing.sorted]
    refine (List.map_mergeSort fun a ha b hb => ?_).trans (by rw [seconds])
    exact congrArg (· != .gt) (Alike.orderAll apt (pairs a ha) (pairs b hb))
  rw [← left, ← right, AllAlike, List.forall₂_map_left_iff, List.forall₂_map_right_iff, List.forall₂_same]
  exact fun p mem => pairs p ((List.mergeSort_perm _ _).mem_iff.1 mem)

theorem AllAlike.page (h : AllAlike timed resolver resolver' rows rows') (l : Listing) :
    Agree (AllAlike timed resolver resolver') (l.page rows) (l.page rows') := by
  unfold Listing.page
  simp only
  split
  · rfl
  · split
    · exact .nil
    · split
      · rfl
      · have rest := List.forall₂_drop (l.skip.getD 0) h
        cases l.limit with
        | none => exact rest
        | some n => exact List.forall₂_take n rest

theorem AllAlike.apply (h : AllAlike timed resolver resolver' rows rows') {l : Listing} (apt : timed ∨ l.Timeless) :
    Agree (AllAlike timed resolver resolver') (l.apply resolver rows) (l.apply resolver' rows') := by
  unfold Listing.apply
  split
  · rfl
  · exact (h.sorted apt).page l

end Row

namespace Table

open Row

variable {timed : Prop} {resolver resolver' : Resolver} {t t' : Table}

theorem allAlike_targets (h : AllAlike timed resolver resolver' t.rows t'.rows) {f : Filter} (apt : timed ∨ f.Timeless)
    (cardinality : Cardinality) : AllAlike timed resolver resolver' (t.targets (f.predicate resolver) cardinality)
      (t'.targets (f.predicate resolver') cardinality) := by
  cases cardinality with
  | one => exact List.forall₂_take 1 (h.select apt)
  | many => exact h.select apt

theorem guardCode_congr (guards : List Guard) {rows rows' : List Row} (h : AllAlike timed resolver resolver' rows rows') :
    guardCode guards rows = guardCode guards rows' := by
  have same : rows.findSome? (fun row => guardCode? guards row.data.tree)
      = rows'.findSome? fun row => guardCode? guards row.data.tree := by
    induction h with
    | nil => rfl
    | cons first _ ih => rw [List.findSome?_cons, List.findSome?_cons, first.twin.data, ih]
  rw [guardCode, guardCode, same]

end Table

end Dossier
