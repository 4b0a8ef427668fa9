import Dossier.Proofs.Database.Numbers

/-!
# Sorted rows

What `ORDER BY` makes of rows, said without a sorting function: `SortKey.Before` tells which of two rows comes first, the
older one where the keys do not tell, and `SortKey.Arranges` that a list has the rows in this order. There is one such list
(`SortKey.Arranges.unique`), and a listing gives it (`Listing.arranges_sorted`), where the columns of the keys mirror the
bodies.
-/

namespace Dossier

open Text Outcome

/-! ## The order of values -/

namespace Decimal.Magnitude

/-- A ratio has a positive denominator. -/
def Proper : Magnitude → Prop
  | ratio _ d => 0 < d
  | _ => True

theorem proper_ofFloat (x : Float) : (ofFloat x).Proper := by
  unfold ofFloat
  split
  · exact Nat.pow_pos (by decide)
  · split <;> trivial

theorem isLE_trans {a b c : Magnitude} (proper : b.Proper) (first : (a.compare b).isLE = true)
    (second : (b.compare c).isLE = true) : (a.compare c).isLE = true := by
  cases a <;> cases b <;> cases c
  case ratio.ratio.ratio n d m e k f =>
    have low : n * e ≤ m * d := by simpa [compare, Int.isLE_compare] using first
    have high : m * f ≤ k * e := by simpa [compare, Int.isLE_compare] using second
    have cross : n * f * e ≤ k * d * e := calc
      n * f * e = n * e * f := Int.mul_right_comm ..
      _ ≤ m * d * f := Int.mul_le_mul_of_nonneg_right low (Int.natCast_nonneg f)
      _ = m * f * d := Int.mul_right_comm ..
      _ ≤ k * e * d := Int.mul_le_mul_of_nonneg_right high (Int.natCast_nonneg d)
      _ = k * d * e := Int.mul_right_comm ..
    have positive : (0 : Int) < e := Int.natCast_pos.2 proper
    simpa [compare, Int.isLE_compare] using Int.le_of_mul_le_mul_right cross positive
  all_goals first
    | rfl
    | (cases first; done)
    | cases second

end Decimal.Magnitude

namespace Value

variable {c : Collation} {x y z : Value}

theorem proper_magnitude (v : Value) : v.magnitude.Proper := by
  cases v with
  | integer n => exact Nat.one_pos
  | real x => exact Decimal.Magnitude.proper_ofFloat x
  | null | text => trivial

theorem textOrder_eq (as bs : List Char) : textOrder as bs = List.compareLex (compareOn Char.toNat) as bs := by
  induction as generalizing bs with
  | nil => cases bs <;> rfl
  | cons a as ih =>
    cases bs with
    | nil => rfl
    | cons b bs => rw [textOrder, ih, List.compareLex_cons_cons]; rfl

theorem order_of_not_texts (c : Collation) (either : x.isText = false ∨ y.isText = false) :
    order c x y = (compare x.rank y.rank).then (x.magnitude.compare y.magnitude) := by
  cases x <;> cases y
  case text.text => rcases either with bad | bad <;> cases bad
  all_goals rfl

theorem isText_iff : x.isText = true ↔ x.rank = 2 := by cases x <;> simp [isText, rank]

theorem order_of_rank_lt (c : Collation) (lt : x.rank < y.rank) : order c x y = .lt := by
  have texts : x.isText = false := by
    refine Bool.eq_false_iff.2 fun text => ?_
    have most : y.rank ≤ 2 := by cases y <;> simp [rank]
    have := isText_iff.1 text
    omega
  rw [order_of_not_texts c (.inl texts), Nat.compare_eq_lt.2 lt]
  rfl

theorem rank_le_of_isLE (le : (order c x y).isLE = true) : x.rank ≤ y.rank := by
  by_contra gt
  rw [order_swap, order_of_rank_lt c (Nat.lt_of_not_le gt)] at le
  cases le

/-- Within one kind of values texts are compared as texts and the others as numbers. -/
theorem order_of_rank_eq (c : Collation) (same : x.rank = y.rank) : order c x y
    = if x.isText then textOrder (c.key (x.text?.getD "")) (c.key (y.text?.getD "")) else x.magnitude.compare y.magnitude := by
  by_cases kind : x.isText = true
  · have kind' : y.isText = true := isText_iff.2 (same ▸ isText_iff.1 kind)
    rw [if_pos kind]
    cases x <;> cases kind
    cases y <;> cases kind'
    rfl
  · rw [if_neg kind, order_of_not_texts c (.inl (Bool.eq_false_iff.2 kind)), Nat.compare_eq_eq.2 same]
    rfl

theorem order_isLE_trans (first : (order c x y).isLE = true) (second : (order c y z).isLE = true) :
    (order c x z).isLE = true := by
  have low := rank_le_of_isLE first
  have high := rank_le_of_isLE second
  rcases Nat.lt_or_eq_of_le (Nat.le_trans low high) with lt | same
  · rw [order_of_rank_lt c lt]
    rfl
  · have left : x.rank = y.rank := by omega
    have kinds : y.isText = x.isText := Bool.eq_iff_iff.2 (by rw [isText_iff, isText_iff, left])
    rw [order_of_rank_eq c left] at first
    rw [order_of_rank_eq c (left.symm.trans same), kinds] at second
    rw [order_of_rank_eq c same]
    split at first
    · rename_i text
      rw [if_pos text] at second ⊢
      rw [textOrder_eq] at first second ⊢
      exact Std.TransCmp.isLE_trans first second
    · rename_i number
      rw [if_neg number] at second ⊢
      exact Decimal.Magnitude.isLE_trans (proper_magnitude y) first second

/-- The order of values is one of a line with ties. -/
instance (c : Collation) : Std.TransCmp (order c) where
  eq_swap := order_swap c _ _
  isLE_trans := order_isLE_trans

end Value

/-! ## Keys -/

/-- What a field of a document is in a row: a column that every row has, or what the body holds at the path. -/
def Row.field (r : Row) : FieldRef → Value
  | .system .id => .text r.id
  | .system .createdAt => .integer r.createdAt
  | .system .updatedAt => .integer r.updatedAt
  | .body path => r.data.extract path

/-- The order of two rows by a field. -/
def Row.orderBy (field : FieldRef) (a b : Row) : Ordering := Value.order .binary (a.field field) (b.field field)

theorem Row.orderBy_eq_eq_comm {field : FieldRef} {a b : Row} : Row.orderBy field a b = .eq ↔ Row.orderBy field b a = .eq := by
  rw [orderBy, orderBy, Value.order_swap, Ordering.swap_eq_eq]

namespace SortKey

/-- The key puts the first row in front of the second. -/
def Prefers (key : SortKey) (a b : Row) : Prop :=
  Row.orderBy key.field a b = match key.direction with
    | .ascending => .lt
    | .descending => .gt

/-- One row comes before another: the first key that does not tie them prefers it, or all keys tie them and it is older. -/
inductive Before : List SortKey → Row → Row → Prop
  | older {a b : Row} (older : a.rowid < b.rowid) : Before [] a b
  | told {key : SortKey} {rest : List SortKey} {a b : Row} (told : key.Prefers a b) : Before (key :: rest) a b
  | tied {key : SortKey} {rest : List SortKey} {a b : Row} (tied : Row.orderBy key.field a b = .eq) (later : Before rest a b) :
    Before (key :: rest) a b

/-- The second list has the rows of the first, each before those that come later. -/
structure Arranges (keys : List SortKey) (rows arranged : List Row) : Prop where
  perm : arranged.Perm rows
  ordered : arranged.Pairwise (Before keys)

variable {key : SortKey} {keys : List SortKey} {a b : Row} {rows arranged : List Row} {r : Resolver}

theorem before_nil : Before [] a b ↔ a.rowid < b.rowid := by
  constructor
  · rintro ⟨older⟩
    exact older
  · exact .older

theorem before_cons : Before (key :: keys) a b ↔ key.Prefers a b ∨ Row.orderBy key.field a b = .eq ∧ Before keys a b := by
  constructor
  · rintro (_ | told | ⟨tied, later⟩)
    · exact .inl told
    · exact .inr ⟨tied, later⟩
  · rintro (told | ⟨tied, later⟩)
    · exact .told told
    · exact .tied tied later

instance decidablePrefers (key : SortKey) (a b : Row) : Decidable (key.Prefers a b) := inferInstanceAs (Decidable (_ = _))

instance decidableBefore : (keys : List SortKey) → (a b : Row) → Decidable (Before keys a b)
  | [], _, _ => decidable_of_iff _ before_nil.symm
  | _ :: rest, a, b =>
    have := decidableBefore rest a b
    decidable_of_iff _ before_cons.symm

/-- What is read for the keys is what the fields are. -/
def Faithful (r : Resolver) (keys : List SortKey) (row : Row) : Prop :=
  ∀ key ∈ keys, row.read (r.operand key.field) = row.field key.field

instance (r : Resolver) (key : SortKey) : Std.TransCmp (key.order r) where
  eq_swap {a b} := by
    unfold order
    cases key.direction with
    | ascending => exact Value.order_swap ..
    | descending => exact congrArg Ordering.swap (Value.order_swap ..)
  isLE_trans {a b c} first second := by
    unfold order at first second ⊢
    cases direction : key.direction with
    | ascending =>
      simp only [direction] at first second ⊢
      exact Std.TransCmp.isLE_trans first second
    | descending =>
      simp only [direction, ← Value.order_swap] at first second ⊢
      exact Std.TransCmp.isLE_trans second first

instance (r : Resolver) (keys : List SortKey) : Std.TransCmp (orderAll r keys) := by
  induction keys with
  | nil => exact { eq_swap := rfl, isLE_trans := fun _ _ => rfl }
  | cons key rest ih => exact inferInstanceAs (Std.TransCmp (compareLex (key.order r) (orderAll r rest)))

/-- The order of the listing says which row comes before, and the numbers say it of rows that are tied. -/
theorem before_iff (fa : Faithful r keys a) (fb : Faithful r keys b) :
    Before keys a b ↔ orderAll r keys a b = .lt ∨ orderAll r keys a b = .eq ∧ a.rowid < b.rowid := by
  induction keys with
  | nil => simp [before_nil, orderAll]
  | cons key rest ih =>
    have later := ih (fun k mem => fa k (List.mem_cons_of_mem _ mem)) fun k mem => fb k (List.mem_cons_of_mem _ mem)
    have one : key.order r a b = match key.direction with
        | .ascending => Row.orderBy key.field a b
        | .descending => (Row.orderBy key.field a b).swap := by
      rw [order, fa key List.mem_cons_self, fb key List.mem_cons_self]
      rfl
    have told : key.order r a b = .lt ↔ key.Prefers a b := by
      rw [one, Prefers]
      cases key.direction with
      | ascending => rfl
      | descending => exact Ordering.swap_eq_lt
    have tied : key.order r a b = .eq ↔ Row.orderBy key.field a b = .eq := by
      rw [one]
      cases key.direction with
      | ascending => rfl
      | descending => exact Ordering.swap_eq_eq
    rw [before_cons, ← told, ← tied, later, orderAll]
    cases key.order r a b <;> simp [Ordering.then]

theorem Prefers.ne_eq (told : key.Prefers a b) : Row.orderBy key.field a b ≠ .eq := by
  unfold Prefers at told
  rw [told]
  cases key.direction <;> nofun

theorem Prefers.asymm (told : key.Prefers a b) : ¬ key.Prefers b a := by
  unfold Prefers Row.orderBy at told ⊢
  rw [Value.order_swap, told]
  cases key.direction <;> nofun

/-- Of two rows one at most comes before the other. -/
theorem Before.asymm (first : Before keys a b) : ¬ Before keys b a := by
  induction first with
  | older older =>
    rintro ⟨older'⟩
    omega
  | told told =>
    rintro (_ | told' | ⟨tied, -⟩)
    · exact told.asymm told'
    · exact told.ne_eq (Row.orderBy_eq_eq_comm.1 tied)
  | tied tied _ ih =>
    rintro (_ | told' | ⟨-, later⟩)
    · exact told'.ne_eq (Row.orderBy_eq_eq_comm.1 tied)
    · exact ih later

/-- There is one arrangement at most. -/
theorem Arranges.unique {arranged' : List Row} (h : Arranges keys rows arranged) (h' : Arranges keys rows arranged') :
    arranged = arranged' :=
  (h.perm.trans h'.perm.symm).eq_of_pairwise (fun _ _ _ _ first second => absurd second first.asymm) h.ordered h'.ordered

end SortKey

namespace Listing

variable {l : Listing} (r : Resolver) {rows : List Row}

theorem le_trans (a b c : Row) (first : (SortKey.orderAll r l.keys a b != .gt) = true)
    (second : (SortKey.orderAll r l.keys b c != .gt) = true) : (SortKey.orderAll r l.keys a c != .gt) = true := by
  rw [bne_iff_ne, ne_eq, ← Ordering.isLE_iff_ne_gt] at *
  exact Std.TransCmp.isLE_trans first second

theorem le_total (a b : Row) :
    ((SortKey.orderAll r l.keys a b != .gt) || (SortKey.orderAll r l.keys b a != .gt)) = true := by
  have swapped : SortKey.orderAll r l.keys b a = (SortKey.orderAll r l.keys a b).swap := Std.OrientedCmp.eq_swap
  rw [swapped]
  cases SortKey.orderAll r l.keys a b <;> rfl

/-- Sorting leaves rows that the keys tie in the order in which they were. -/
theorem filter_sorted (a : Row) : (l.sorted r rows).filter (SortKey.orderAll r l.keys a · == .eq)
    = rows.filter (SortKey.orderAll r l.keys a · == .eq) := by
  have tied {b c : Row} (hb : SortKey.orderAll r l.keys a b = .eq) (hc : SortKey.orderAll r l.keys a c = .eq) :
      SortKey.orderAll r l.keys b c = .eq :=
    Std.TransCmp.eq_trans (Std.OrientedCmp.eq_symm hb) hc
  have kept : (rows.filter (SortKey.orderAll r l.keys a · == .eq)).Sublist (l.sorted r rows) := by
    refine List.sublist_mergeSort (le_trans r) (le_total r) ?_ List.filter_sublist
    refine List.pairwise_of_forall_mem_list fun b hb c hc => ?_
    rw [tied (by simpa using (List.mem_filter.1 hb).2) (by simpa using (List.mem_filter.1 hc).2)]
    rfl
  have within := kept.filter (SortKey.orderAll r l.keys a · == .eq)
  simp only [List.filter_filter, Bool.and_self] at within
  exact (within.eq_of_length ((List.mergeSort_perm ..).filter _).length_eq.symm).symm

/-- Where rows stand in the order of their numbers, sorting puts them in the order of the keys, and of their numbers where
the keys tie them. -/
theorem pairwise_sorted (increasing : rows.Pairwise fun a b => a.rowid < b.rowid) : (l.sorted r rows).Pairwise fun a b =>
    SortKey.orderAll r l.keys a b = .lt ∨ SortKey.orderAll r l.keys a b = .eq ∧ a.rowid < b.rowid := by
  refine List.pairwise_iff_forall_sublist.2 fun {a b} pair => ?_
  have le := List.pairwise_iff_forall_sublist.1 (List.pairwise_mergeSort (le_trans r) (le_total r) rows) pair
  cases told : SortKey.orderAll r l.keys a b with
  | lt => exact .inl rfl
  | gt =>
    rw [told] at le
    cases le
  | eq =>
    -- rows that are tied stand as they stood before
    have tied := pair.filter (SortKey.orderAll r l.keys a · == .eq)
    rw [filter_sorted, List.filter_cons_of_pos (by simp [Std.ReflCmp.compare_self]), List.filter_cons_of_pos (by simp [told])] at tied
    exact .inr ⟨rfl, List.pairwise_iff_forall_sublist.1 (increasing.sublist List.filter_sublist) tied⟩

/-- Sorting arranges rows that stand in the order of their insertion. -/
theorem arranges_sorted (faithful : ∀ row ∈ rows, SortKey.Faithful r l.keys row)
    (increasing : rows.Pairwise fun a b => a.rowid < b.rowid) : SortKey.Arranges l.keys rows (l.sorted r rows) := by
  have perm : (l.sorted r rows).Perm rows := List.mergeSort_perm ..
  refine ⟨perm, (pairwise_sorted r increasing).imp_of_mem fun {a b} ha hb before => ?_⟩
  exact (SortKey.before_iff (faithful a (perm.subset ha)) (faithful b (perm.subset hb))).2 before

/-- Without keys the rows stay in the order of insertion. -/
theorem sorted_of_unsorted (unsorted : l.sort = none) : l.sorted r rows = rows := by
  refine List.mergeSort_of_pairwise ?_
  rw [show l.keys = [] by rw [keys, unsorted]; rfl]
  exact List.pairwise_of_forall fun _ _ => rfl

theorem apply_all (rows : List Row) : all.apply r rows = .ok rows := by
  rw [apply, sorted_of_unsorted r rfl]
  rfl

theorem apply_first (rows : List Row) : first.apply r rows = .ok (rows.take 1) := by
  rw [apply, sorted_of_unsorted r rfl]
  rfl

end Listing

end Dossier
