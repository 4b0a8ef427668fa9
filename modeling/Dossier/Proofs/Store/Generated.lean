import Dossier.Proofs.Text.Hexadecimal
import Dossier.Store.Identifier

/-!
# Generated identifiers

`IdSource.draw` takes one identifier after another. Those of a time, a counter and a random number have 26 lower-case
hexadecimal digits, and under a clock that never goes back each is greater than all before it exactly if the clock moves on
whenever the counter comes round (`IdSource.draw_timeOrdered`). `IdSource.unordered_of_turn` is the run of one millisecond in
which it does.
-/

namespace Dossier

open Text

/-- A digit of lower-case hexadecimal. -/
def isLowerHex (c : Char) : Bool := c.isDigit || ('a' ≤ c && c ≤ 'f')

/-! ## One identifier -/

section Identifier

variable {time time' counter counter' random random' : Nat}

theorem length_timeOrderedId (time counter random : Nat) : (timeOrderedId time counter random).length = 26 := by
  simp [timeOrderedId, length_hexDigits, timeDigits, counterDigits, randomDigits]

theorem isLowerHex_timeOrderedId (time counter random : Nat) :
    (timeOrderedId time counter random).toList.all isLowerHex = true := by
  have digits : ∀ d : Fin 16, isLowerHex (hexDigit d.val) = true := by decide
  rw [List.all_eq_true]
  intro c mem
  simp only [timeOrderedId, String.toList_ofList, List.mem_append] at mem
  rcases mem with (mem | mem) | mem <;> exact of_mem_hexDigits digits mem

/-- Identifiers are ordered by time, then by counter, then by random number, each as far as its digits reach. -/
theorem timeOrderedId_lt_iff : timeOrderedId time counter random < timeOrderedId time' counter' random'
    ↔ time % 16 ^ timeDigits < time' % 16 ^ timeDigits
      ∨ (time % 16 ^ timeDigits = time' % 16 ^ timeDigits
        ∧ (counter % 16 ^ counterDigits < counter' % 16 ^ counterDigits
          ∨ (counter % 16 ^ counterDigits = counter' % 16 ^ counterDigits
            ∧ random % 16 ^ randomDigits < random' % 16 ^ randomDigits))) := by
  have length : ∀ width m n, (hexDigits width m).length = (hexDigits width n).length := fun width m n =>
    (length_hexDigits width m).trans (length_hexDigits width n).symm
  rw [timeOrderedId, timeOrderedId, String.lt_iff_toList_lt, String.toList_ofList, String.toList_ofList, List.append_assoc,
    List.append_assoc, append_lt_append_iff (length ..), append_lt_append_iff (length ..), hexDigits_lt_iff, hexDigits_lt_iff,
    hexDigits_lt_iff, hexDigits_eq_iff, hexDigits_eq_iff]

end Identifier

/-! ## A run of identifiers -/

namespace IdSource

variable {clock random : Nat → Nat} {n : Nat}

/-- The next identifiers, and the source after them. -/
def draw : Nat → IdSource → List String × IdSource
  | 0, s => ([], s)
  | n + 1, s => (s.next.1 :: (draw n s.next.2).1, (draw n s.next.2).2)

/-- A run gives the names at the next places. -/
theorem draw_eq (n : Nat) (s : IdSource) :
    s.draw n = ((List.range' s.given n).map s.name, { s with given := s.given + n }) := by
  induction n generalizing s with
  | zero => rfl
  | succ n ih => simp [draw, ih, next, List.range'_succ, Nat.add_assoc, Nat.add_comm 1]

theorem draw_start (name : Nat → String) (n : Nat) : ((start name).draw n).1 = (List.range n).map name := by
  rw [draw_eq, List.range_eq_range']
  rfl

/-- Every identifier of a run is greater than all before it. -/
theorem pairwise_draw_iff {name : Nat → String} :
    ((start name).draw n).1.Pairwise (· < ·) ↔ ∀ i j, i < j → j < n → name i < name j := by
  rw [draw_start, List.pairwise_map, List.pairwise_iff_getElem]
  simp only [List.length_range, List.getElem_range]
  exact ⟨fun h i j less inside => h i j (less.trans inside) inside less, fun h i j _ inside less => h i j less inside⟩

/-- As many identifiers as the counter tells apart. -/
def turn : Nat := 16 ^ counterDigits

/-- Between two places of one turn the counter grows. -/
theorem counter_lt {i j : Nat} (less : i < j) (same : i / turn = j / turn) : i % turn < j % turn := by
  have := Nat.div_add_mod i turn
  have := Nat.div_add_mod j turn
  rw [same] at *
  omega

/-- If the clock moves on at the beginning of each turn, a later turn is at a later time. -/
theorem clock_lt_of_turn (steady : Monotone clock) {i j : Nat} (inside : j < n) (later : i / turn < j / turn)
    (apart : ∀ k, 0 < k → k * turn < n → clock (k * turn - 1) < clock (k * turn)) : clock i < clock j := by
  have positive : 0 < turn := by decide
  have starts : j / turn * turn ≤ j := Nat.div_mul_le_self j turn
  have before : i < j / turn * turn := (Nat.div_lt_iff_lt_mul positive).1 later
  calc clock i
    _ ≤ clock (j / turn * turn - 1) := steady (Nat.le_sub_one_of_lt before)
    _ < clock (j / turn * turn) := apart _ (Nat.zero_lt_of_lt later) (starts.trans_lt inside)
    _ ≤ clock j := steady starts

/-- The identifiers of a clock that never goes back grow exactly if it moves on whenever the counter comes round. -/
theorem ordered_iff (steady : Monotone clock) (fits : ∀ i < n, clock i < 16 ^ timeDigits) :
    (∀ i j, i < j → j < n → timeOrderedId (clock i) i (random i) < timeOrderedId (clock j) j (random j))
      ↔ ∀ k, 0 < k → k * turn < n → clock (k * turn - 1) < clock (k * turn) := by
  have time {i : Nat} (inside : i < n) : clock i % 16 ^ timeDigits = clock i := Nat.mod_eq_of_lt (fits i inside)
  constructor
  · intro ordered k some_ inside
    have positive : 0 < k * turn := Nat.mul_pos some_ (by decide)
    have less := ordered (k * turn - 1) (k * turn) (by omega) inside
    rw [timeOrderedId_lt_iff, time inside, time (Nat.lt_of_le_of_lt (Nat.sub_le ..) inside)] at less
    rcases less with earlier | ⟨-, counters⟩
    · exact earlier
    · -- the last counter of a turn is followed by zero
      have zero : k * turn % 16 ^ counterDigits = 0 := Nat.mul_mod_left k turn
      have last : (k * turn - 1) % 16 ^ counterDigits ≠ 0 := by
        simp only [turn, counterDigits] at positive ⊢
        omega
      omega
  · intro apart i j less inside
    rw [timeOrderedId_lt_iff, time inside, time (less.trans inside)]
    rcases Nat.lt_or_ge (clock i) (clock j) with earlier | late
    · exact .inl earlier
    have same : clock i = clock j := Nat.le_antisymm (steady less.le) late
    have turns : i / turn = j / turn := by
      refine Nat.le_antisymm (Nat.div_le_div_right less.le) (Nat.le_of_not_lt fun later => ?_)
      exact absurd (clock_lt_of_turn steady inside later apart) (by omega)
    exact .inr ⟨same, .inl (counter_lt less turns)⟩

/-- For every clock that never goes back and fits in its digits, for all random numbers and runs of every length: each
identifier has 26 digits of lower-case hexadecimal, and each is greater than all before it exactly if the clock moves on
whenever the counter comes round. -/
theorem draw_timeOrdered (steady : Monotone clock) (n : Nat) (fits : ∀ i < n, clock i < 16 ^ timeDigits) :
    ((timeOrdered clock random).draw n).1.length = n
      ∧ (∀ id ∈ ((timeOrdered clock random).draw n).1, id.length = 26 ∧ id.toList.all isLowerHex = true)
      ∧ (((timeOrdered clock random).draw n).1.Pairwise (· < ·)
        ↔ ∀ k, 0 < k → k * turn < n → clock (k * turn - 1) < clock (k * turn)) := by
  refine ⟨?_, fun id mem => ?_, pairwise_draw_iff.trans (ordered_iff steady fits)⟩
  · rw [timeOrdered, draw_start, List.length_map, List.length_range]
  · rw [timeOrdered, draw_start] at mem
    obtain ⟨i, -, rfl⟩ := List.mem_map.1 mem
    exact ⟨length_timeOrderedId .., isLowerHex_timeOrderedId ..⟩

/-- Three turns of the counter, with 4096 identifiers in each millisecond. -/
theorem draw_timeOrdered_threeTurns :
    ((timeOrdered (· / 4096) (7 * ·)).draw (3 * turn)).1.length = 3 * turn
      ∧ (∀ id ∈ ((timeOrdered (· / 4096) (7 * ·)).draw (3 * turn)).1, id.length = 26 ∧ id.toList.all isLowerHex = true)
      ∧ ((timeOrdered (· / 4096) (7 * ·)).draw (3 * turn)).1.Pairwise (· < ·) := by
  have steady : Monotone (· / 4096 : Nat → Nat) := fun i j le => Nat.div_le_div_right le
  have fits : ∀ i < 3 * turn, i / 4096 < 16 ^ timeDigits := by
    intro i inside
    simp only [turn, counterDigits, timeDigits] at inside ⊢
    omega
  obtain ⟨length, digits, ordered⟩ := @draw_timeOrdered _ (7 * ·) steady (3 * turn) fits
  refine ⟨length, digits, ordered.2 fun k some_ inside => ?_⟩
  simp only [turn, counterDigits]
  omega

/-- In one millisecond the identifier after a whole turn is less than the one before it. -/
theorem unordered_of_turn : Monotone (fun _ => 1700000000000 : Nat → Nat) ∧ 1700000000000 < 16 ^ timeDigits
    ∧ ¬ ((timeOrdered (fun _ => 1700000000000) fun _ => 0).draw (turn + 1)).1.Pairwise (· < ·) := by
  refine ⟨monotone_const, by decide, fun ordered => ?_⟩
  have less := pairwise_draw_iff.1 ordered (turn - 1) turn (by decide) (Nat.lt_succ_self turn)
  rw [timeOrderedId_lt_iff] at less
  revert less
  decide

end IdSource

end Dossier
