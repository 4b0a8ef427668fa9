import Dossier.Sql.Token

/-!
# How far tokens reach

Each kind of token has its own way to end: a run at the first other character, a quoted text at a delimiter that is not
doubled, a number where nothing goes on with it, a symbol where there is no longer one. Where a token ends depends on
itself and on the next character alone.
-/

namespace Dossier.Sql

open Text

variable {p : Char → Bool} {c : Char} {cs rest rest' : List Char} {n : Nat}

/-! ## Runs -/

/-- The first character, if there is one, fails the test. -/
def Ends (p : Char → Bool) (cs : List Char) : Prop := ∀ c ∈ cs.head?, p c = false

theorem ends_beq_iff {q : Char} : Ends (· == q) cs ↔ cs.head? ≠ some q := by
  constructor
  · intro ends first
    simpa using ends q first
  · intro apart c first
    exact beq_eq_false_iff_ne.2 fun same => apart (same ▸ first)

theorem Ends.imp {q : Char → Bool} (h : Ends p cs) (weaker : ∀ c, q c = true → p c = true) : Ends q cs := by
  intro c first
  have failed := h c first
  cases passes : q c with
  | false => rfl
  | true => rw [weaker c passes] at failed; cases failed

theorem ends_cons (fails : p c = false) : Ends p (c :: cs) := fun _ first => Option.some.inj first ▸ fails

theorem runLength_of_ends (ends : Ends p cs) : runLength p cs = 0 := by
  cases cs with
  | nil => rfl
  | cons c rest => simp [runLength, ends c rfl]

theorem runLength_append (all : cs.all p = true) : runLength p (cs ++ rest) = cs.length + runLength p rest := by
  unfold runLength
  rw [List.takeWhile_append_of_pos (by simpa using all), List.length_append]

/-- A run stops where the first part of a text does, and the next character does not go on with it. -/
theorem runLength_eq_length (all : cs.all p = true) (ends : Ends p rest) : runLength p (cs ++ rest) = cs.length := by
  rw [runLength_append all, runLength_of_ends ends, Nat.add_zero]

/-- A run that is as long as the first part of a text is that part. -/
theorem all_of_runLength (h : runLength p (cs ++ rest) = cs.length) : cs.all p = true ∧ Ends p rest := by
  induction cs with
  | nil =>
    refine ⟨rfl, fun c first => ?_⟩
    obtain ⟨more, rfl⟩ := List.head?_eq_some_iff.1 first
    cases passes : p c with
    | false => rfl
    | true => simp [runLength, passes] at h
  | cons c cs ih =>
    cases passes : p c with
    | true =>
      have later := ih (by simpa [runLength, passes] using h)
      exact ⟨by simp [passes, later.1], later.2⟩
    | false => simp [runLength, passes] at h

/-- A run that stops inside the first part of a text does not look at the rest. -/
theorem runLength_congr (h : runLength p (cs ++ rest) < cs.length) :
    runLength p (cs ++ rest') = runLength p (cs ++ rest) := by
  induction cs with
  | nil => cases h
  | cons c cs ih =>
    cases passes : p c with
    | true => simpa [runLength, passes] using ih (by simpa [runLength, passes] using h)
    | false => simp [runLength, passes]

/-- The characters that a run takes. -/
theorem all_take_runLength (p : Char → Bool) (cs : List Char) : (cs.take (runLength p cs)).all p = true := by
  induction cs with
  | nil => rfl
  | cons c cs ih =>
    cases passes : p c with
    | true => simpa [runLength, passes] using ih
    | false => simp [runLength, passes]

theorem runLength_le (p : Char → Bool) (cs : List Char) : runLength p cs ≤ cs.length := (List.takeWhile_sublist p).length_le

/-! ## Quotes -/

theorem quoteLength?_pos {q : Char} (h : quoteLength? q cs = some n) : 0 < n := by
  have more : ∀ {k : Nat} {r : Option Nat}, r.map (· + (k + 1)) = some n → 0 < n := by
    intro k r made
    obtain ⟨m, -, rfl⟩ := Option.map_eq_some_iff.1 made
    omega
  unfold quoteLength? at h
  split at h
  · cases h
  · split at h <;> cases h
    exact Nat.one_pos
  · split at h
    · split at h
      · exact more h
      · cases h
        exact Nat.one_pos
    · exact more h

theorem quoteLength?_cons_of_ne {q : Char} (ne : c ≠ q) : quoteLength? q (c :: cs) = (quoteLength? q cs).map (· + 1) := by
  cases cs <;> simp [quoteLength?, ne]

theorem quoteLength?_cons_of_ends {q : Char} (ends : Ends (· == q) cs) : quoteLength? q (q :: cs) = some 1 := by
  cases cs with
  | nil => simp [quoteLength?]
  | cons d more => simp [quoteLength?, show d ≠ q by simpa using ends d rfl]

theorem quoteLength?_double (q : Char) (cs : List Char) :
    quoteLength? q (q :: q :: cs) = (quoteLength? q cs).map (· + 2) := by simp [quoteLength?]

theorem quoteLength?_le {q : Char} (cs : List Char) {n : Nat} (h : quoteLength? q cs = some n) : n ≤ cs.length := by
  match cs with
  | [] => cases h
  | c :: more =>
    by_cases closes : c = q
    · subst closes
      by_cases doubled : more.head? = some c
      · obtain ⟨others, rfl⟩ := List.head?_eq_some_iff.1 doubled
        obtain ⟨m, inner, rfl⟩ := Option.map_eq_some_iff.1 ((quoteLength?_double c others).symm.trans h)
        have := quoteLength?_le others inner
        simp only [List.length_cons]
        omega
      · cases (quoteLength?_cons_of_ends (ends_beq_iff.2 doubled)).symm.trans h
        simp
    · obtain ⟨m, inner, rfl⟩ := Option.map_eq_some_iff.1 ((quoteLength?_cons_of_ne closes).symm.trans h)
      have := quoteLength?_le more inner
      simp only [List.length_cons]
      omega

/-- The characters, each `q` among them twice. -/
def doubled (q : Char) (cs : List Char) : List Char := cs.flatMap fun c => if c = q then [q, q] else [c]

theorem doubled_cons_self (q : Char) (cs : List Char) : doubled q (q :: cs) = q :: q :: doubled q cs := by
  simp [doubled]

theorem doubled_cons_of_ne {q : Char} (ne : c ≠ q) (cs : List Char) : doubled q (c :: cs) = c :: doubled q cs := by
  simp [doubled, ne]

theorem mem_doubled {q : Char} : c ∈ doubled q cs ↔ c ∈ cs := by
  induction cs with
  | nil => rfl
  | cons d cs ih =>
    by_cases same : d = q
    · subst same
      simp [doubled_cons_self, ih]
    · simp [doubled_cons_of_ne same, ih]

theorem quoteLength?_doubled (q : Char) (cs after : List Char) :
    quoteLength? q (doubled q cs ++ after) = (quoteLength? q after).map (· + (doubled q cs).length) := by
  induction cs with
  | nil => simp [doubled]
  | cons c cs ih =>
    by_cases same : c = q
    · subst same
      rw [doubled_cons_self, List.cons_append, List.cons_append, quoteLength?_double, ih, Option.map_map]
      rfl
    · rw [doubled_cons_of_ne same, List.cons_append, quoteLength?_cons_of_ne same, ih, Option.map_map]
      rfl

theorem exists_doubled_of_quoteLength? {q : Char} (cs : List Char) (h : quoteLength? q (cs ++ rest) = some cs.length) :
    (∃ body, cs = doubled q body ++ [q]) ∧ Ends (· == q) rest := by
  match cs with
  | [] => exact absurd (quoteLength?_pos h) (Nat.lt_irrefl 0)
  | c :: more =>
    by_cases closes : c = q
    · subst closes
      match more with
      | [] =>
        refine ⟨⟨[], rfl⟩, ends_beq_iff.2 fun next => ?_⟩
        obtain ⟨others, rfl⟩ := List.head?_eq_some_iff.1 next
        obtain ⟨m, -, eq⟩ := Option.map_eq_some_iff.1 ((quoteLength?_double c others).symm.trans h)
        simp at eq
      | d :: others =>
        by_cases twice : d = c
        · subst twice
          obtain ⟨m, found, eq⟩ := Option.map_eq_some_iff.1 ((quoteLength?_double d (others ++ rest)).symm.trans h)
          obtain rfl : m = others.length := by simpa using eq
          obtain ⟨⟨body, rfl⟩, ends⟩ := exists_doubled_of_quoteLength? others found
          exact ⟨⟨d :: body, by rw [doubled_cons_self]; rfl⟩, ends⟩
        · rw [List.cons_append, quoteLength?_cons_of_ends (by simpa [Ends] using twice)] at h
          simp at h
    · obtain ⟨m, found, eq⟩ := Option.map_eq_some_iff.1 ((quoteLength?_cons_of_ne closes).symm.trans h)
      obtain rfl : m = more.length := by simpa using eq
      obtain ⟨⟨body, rfl⟩, ends⟩ := exists_doubled_of_quoteLength? more found
      exact ⟨⟨c :: body, by rw [doubled_cons_of_ne closes]; rfl⟩, ends⟩

/-- A quoted text is one with doubled quotes and the quote that closes it, before what does not double that. -/
theorem quoteLength?_eq_length_iff {q : Char} :
    quoteLength? q (cs ++ rest) = some cs.length ↔ (∃ body, cs = doubled q body ++ [q]) ∧ Ends (· == q) rest := by
  refine ⟨exists_doubled_of_quoteLength? cs, ?_⟩
  rintro ⟨⟨body, rfl⟩, ends⟩
  rw [List.append_assoc, List.singleton_append, quoteLength?_doubled, quoteLength?_cons_of_ends ends, List.length_append]
  simp [Nat.add_comm]

/-- What a delimiter closes is closed before every rest that does not double the delimiter. -/
theorem quoteLength?_congr {q : Char} (cs : List Char) (h : quoteLength? q (cs ++ rest) = some cs.length)
    (ends : Ends (· == q) rest') : quoteLength? q (cs ++ rest') = some cs.length :=
  quoteLength?_eq_length_iff.2 ⟨(quoteLength?_eq_length_iff.1 h).1, ends⟩

/-- A closing bracket closes, whatever follows. -/
theorem bracketLength?_congr (h : bracketLength? (cs ++ rest) = some cs.length) :
    bracketLength? (cs ++ rest') = some cs.length := by
  unfold bracketLength? at h ⊢
  simp only at h ⊢
  split at h
  · have eq := Option.some.inj h
    have same : runLength (· != ']') (cs ++ rest') = runLength (· != ']') (cs ++ rest) := runLength_congr (by omega)
    rw [same, eq, if_pos]
    simp only [List.length_append]
    omega
  · cases h

/-! ## Numbers -/

/-- Digits with separators, a point with more of them, and an exponent; each part may be missing. -/
structure IsDecimal (cs whole fraction exponent : List Char) : Prop where
  parts : cs = whole ++ (fraction ++ exponent)
  whole : whole.all isDigitOrSeparator = true
  fraction : fraction = [] ∨ ∃ ds, fraction = '.' :: ds ∧ ds.all isDigitOrSeparator = true
  exponent : exponent = [] ∨ ∃ e sign d ds, (e = 'e' ∨ e = 'E') ∧ (sign = [] ∨ sign = ['+'] ∨ sign = ['-'])
    ∧ d.isDigit = true ∧ ds.all isDigitOrSeparator = true ∧ exponent = e :: (sign ++ d :: ds)

/-- The characters that a number may go on with. -/
def goesOn (c : Char) : Bool := isWordChar c || c == '.'

theorem fractionLength_take (cs : List Char) : cs.take (fractionLength cs) = []
    ∨ ∃ ds, cs.take (fractionLength cs) = '.' :: ds ∧ ds.all isDigitOrSeparator = true := by
  fun_cases fractionLength cs with
  | case1 rest =>
    rw [Nat.add_comm]
    exact .inr ⟨_, rfl, all_take_runLength _ rest⟩
  | case2 => exact .inl rfl

theorem exponentLength_take (cs : List Char) : cs.take (exponentLength cs) = []
    ∨ ∃ e sign d ds, (e = 'e' ∨ e = 'E') ∧ (sign = [] ∨ sign = ['+'] ∨ sign = ['-']) ∧ d.isDigit = true
      ∧ ds.all isDigitOrSeparator = true ∧ cs.take (exponentLength cs) = e :: (sign ++ d :: ds) := by
  unfold exponentLength
  split
  · rename_i e rest
    split
    · rename_i letter
      simp only [Bool.or_eq_true, decide_eq_true_eq] at letter
      split
      · rename_i d more
        split
        · rename_i digit
          rw [Nat.add_comm]
          exact .inr ⟨e, ['+'], d, _, letter, .inr (.inl rfl), digit, all_take_runLength _ more, rfl⟩
        · exact .inl rfl
      · rename_i d more
        split
        · rename_i digit
          rw [Nat.add_comm]
          exact .inr ⟨e, ['-'], d, _, letter, .inr (.inr rfl), digit, all_take_runLength _ more, rfl⟩
        · exact .inl rfl
      · rename_i d more _ _
        split
        · rename_i digit
          rw [Nat.add_comm]
          exact .inr ⟨e, [], d, _, letter, .inl rfl, digit, all_take_runLength _ more, rfl⟩
        · exact .inl rfl
      · exact .inl rfl
    · exact .inl rfl
  · exact .inl rfl

/-- What the engine takes as a decimal number is one. -/
theorem isDecimal_take (cs : List Char) :
    ∃ whole fraction exponent, IsDecimal (cs.take (numberLength.decimal cs)) whole fraction exponent := by
  unfold numberLength.decimal
  simp only
  rw [List.take_add, List.take_add, List.append_assoc]
  exact ⟨_, _, _, rfl, all_take_runLength _ _, fractionLength_take _, exponentLength_take _⟩

section
variable {whole fraction exponent : List Char}

theorem isDigitOrSeparator_of_isDigit (digit : c.isDigit = true) : isDigitOrSeparator c = true := by
  simp [isDigitOrSeparator, digit]

theorem isWordChar_of_isDigit (digit : c.isDigit = true) : isWordChar c = true := by
  simp [isWordChar, Char.isAlphanum, digit]

theorem goesOn_of_isDigitOrSeparator (h : isDigitOrSeparator c = true) : goesOn c = true := by
  simp only [isDigitOrSeparator, Bool.or_eq_true, beq_iff_eq] at h
  rcases h with digit | rfl
  · simp [goesOn, isWordChar, Char.isAlphanum, digit]
  · decide

theorem Ends.digits (ends : Ends goesOn cs) : Ends isDigitOrSeparator cs := ends.imp fun _ => goesOn_of_isDigitOrSeparator

theorem IsDecimal.exponentLength (h : IsDecimal cs whole fraction exponent) (ends : Ends goesOn rest) :
    exponentLength (exponent ++ rest) = exponent.length := by
  rcases h.exponent with rfl | ⟨e, sign, d, ds, letter, sign_, digit, all, rfl⟩
  · cases rest with
    | nil => rfl
    | cons c more =>
      have apart : ¬ (c = 'e' ∨ c = 'E') := by
        rintro (rfl | rfl) <;> exact absurd (ends _ rfl) (by decide)
      simp [Sql.exponentLength, apart]
  · have run := runLength_eq_length all ends.digits
    have letter : (decide (e = 'e') || decide (e = 'E')) = true := by simpa using letter
    rcases sign_ with rfl | rfl | rfl
    · simp only [List.nil_append, List.cons_append, Sql.exponentLength, letter, if_true]
      split
      · exact absurd digit (by simp_all)
      · exact absurd digit (by simp_all)
      · simp_all
        omega
      · simp_all
    all_goals
      simp only [List.cons_append, List.nil_append, Sql.exponentLength, letter, digit, if_true, run, List.length_cons]
      omega

theorem IsDecimal.ends_fraction (h : IsDecimal cs whole fraction exponent) (ends : Ends goesOn rest) :
    Ends isDigitOrSeparator (exponent ++ rest) ∧ (exponent ++ rest).head? ≠ some '.' := by
  rcases h.exponent with rfl | ⟨e, sign, d, ds, letter, -, -, -, rfl⟩
  · exact ⟨ends.digits, fun point => absurd (ends _ point) (by decide)⟩
  · have head : ∀ c ∈ (e :: (sign ++ d :: ds) ++ rest).head?, c = e := fun c first => (Option.some.inj first).symm
    refine ⟨fun c first => ?_, fun point => ?_⟩
    · rw [head c first]
      rcases letter with rfl | rfl <;> decide
    · have := head _ point
      rcases letter with rfl | rfl <;> cases this

theorem IsDecimal.length_eq (h : IsDecimal cs whole fraction exponent) (ends : Ends goesOn rest) :
    numberLength.decimal (cs ++ rest) = cs.length := by
  obtain ⟨stops, point⟩ := h.ends_fraction ends
  have wholes : runLength isDigitOrSeparator (whole ++ (fraction ++ (exponent ++ rest))) = whole.length := by
    refine runLength_eq_length h.whole ?_
    rcases h.fraction with rfl | ⟨ds, rfl, -⟩
    · exact stops
    · exact fun c first => by cases first; decide
  have fractions : fractionLength (fraction ++ (exponent ++ rest)) = fraction.length := by
    rcases h.fraction with rfl | ⟨ds, rfl, all⟩
    · rw [List.nil_append]
      unfold fractionLength
      split
      · rename_i more eq
        rw [eq] at point
        exact absurd rfl point
      · rfl
    · rw [List.cons_append, fractionLength, runLength_eq_length all stops, List.length_cons]
      omega
  rw [h.parts]
  unfold numberLength.decimal
  simp only [List.append_assoc]
  rw [wholes, List.drop_left, fractions, ← List.drop_drop, List.drop_left, List.drop_left, h.exponentLength ends]
  simp only [List.length_append]
  omega

end

/-- Digits with separators after `0x`. -/
def IsHex (cs : List Char) : Prop := ∃ x h ds, cs = '0' :: x :: h :: ds ∧ (x = 'x' ∨ x = 'X') ∧ (hexValue? h).isSome = true
  ∧ ds.all (fun c => (hexValue? c).isSome || c == '_') = true

/-- The text of a number. -/
def IsNumberText (cs : List Char) : Prop := IsHex cs ∨ ∃ whole fraction exponent, IsDecimal cs whole fraction exponent

theorem isNumberText_take (cs : List Char) : IsNumberText (cs.take (numberLength cs)) := by
  unfold numberLength
  split
  · rename_i x h rest
    split
    · rename_i hex
      simp only [Bool.and_eq_true, Bool.or_eq_true, decide_eq_true_eq] at hex
      rw [Nat.add_comm]
      exact .inl ⟨x, h, _, rfl, hex.1, hex.2, all_take_runLength _ rest⟩
    · exact .inr (isDecimal_take _)
  · exact .inr (isDecimal_take _)

/-- The letters of ASCII by their numbers. -/
theorem isAlpha_iff_toNat : c.isAlpha = true ↔ (65 ≤ c.toNat ∧ c.toNat ≤ 90) ∨ (97 ≤ c.toNat ∧ c.toNat ≤ 122) := by
  have upper : c.isUpper = true ↔ 65 ≤ c.toNat ∧ c.toNat ≤ 90 := decide_eq_true_iff
  have lower : c.isLower = true ↔ 97 ≤ c.toNat ∧ c.toNat ≤ 122 :=
    Bool.and_eq_true_iff.trans (and_congr decide_eq_true_iff decide_eq_true_iff)
  show (c.isUpper || c.isLower) = true ↔ _
  rw [Bool.or_eq_true, upper, lower]

theorem isAlphanum_iff_toNat : c.isAlphanum = true
    ↔ ((65 ≤ c.toNat ∧ c.toNat ≤ 90) ∨ (97 ≤ c.toNat ∧ c.toNat ≤ 122)) ∨ (48 ≤ c.toNat ∧ c.toNat ≤ 57) := by
  show (c.isAlpha || c.isDigit) = true ↔ _
  rw [Bool.or_eq_true, isAlpha_iff_toNat, Char.isDigit_iff_toNat]
  rfl

theorem isAlphanum_of_hexValue? (h : (hexValue? c).isSome = true) : c.isAlphanum = true := by
  rw [isAlphanum_iff_toNat]
  unfold hexValue? at h
  grind

theorem goesOn_of_hexValue? (h : ((hexValue? c).isSome || c == '_') = true) : goesOn c = true := by
  simp only [Bool.or_eq_true, beq_iff_eq] at h
  rcases h with value | rfl
  · simp [goesOn, isWordChar, isAlphanum_of_hexValue? value]
  · decide

theorem IsDecimal.ne_x {whole fraction exponent : List Char} (h : IsDecimal cs whole fraction exponent) (mem : c ∈ cs) :
    c ≠ 'x' ∧ c ≠ 'X' := by
  have digit : ∀ {ds : List Char}, ds.all isDigitOrSeparator = true → c ∈ ds → c ≠ 'x' ∧ c ≠ 'X' := by
    intro ds all mem
    have passes := List.all_eq_true.1 all c mem
    constructor <;> rintro rfl <;> exact absurd passes (by decide)
  rw [h.parts, List.mem_append, List.mem_append] at mem
  rcases mem with mem | mem | mem
  · exact digit h.whole mem
  · rcases h.fraction with rfl | ⟨ds, rfl, all⟩
    · cases mem
    · rcases List.mem_cons.1 mem with rfl | mem
      · decide
      · exact digit all mem
  · rcases h.exponent with rfl | ⟨e, sign, d, ds, letter, sign_, first, all, rfl⟩
    · cases mem
    · rcases List.mem_cons.1 mem with rfl | mem
      · rcases letter with rfl | rfl <;> decide
      · rcases List.mem_append.1 mem with mem | mem
        · rcases sign_ with rfl | rfl | rfl
          · cases mem
          · obtain rfl := List.mem_singleton.1 mem
            decide
          · obtain rfl := List.mem_singleton.1 mem
            decide
        · have separated : (d :: ds).all isDigitOrSeparator = true := by
            rw [List.all_cons, isDigitOrSeparator_of_isDigit first, all]
            rfl
          exact digit separated mem

/-- A number ends before what it cannot go on with. -/
theorem IsNumberText.length_eq (h : IsNumberText cs) (ends : Ends goesOn rest) : numberLength (cs ++ rest) = cs.length := by
  rcases h with ⟨x, d, ds, rfl, marked, digit, all⟩ | ⟨whole, fraction, exponent, decimal⟩
  · have marked : ((decide (x = 'x') || decide (x = 'X')) && (hexValue? d).isSome) = true := by simp [marked, digit]
    simp only [List.cons_append, numberLength, marked, if_true, List.length_cons]
    rw [runLength_eq_length all (ends.imp fun _ => goesOn_of_hexValue?)]
    omega
  · unfold numberLength
    split
    · rename_i x d more eq
      split
      · -- `0x` does not begin a decimal number, and the next character does not make it
        rename_i hex
        simp only [Bool.and_eq_true, Bool.or_eq_true, decide_eq_true_eq] at hex
        exfalso
        match cs with
        | [] => exact absurd (ends '0' (by simp_all)) (by decide)
        | [_] =>
          have first : rest.head? = some x := by simp_all
          rcases hex.1 with rfl | rfl <;> exact absurd (ends _ first) (by decide)
        | _ :: y :: _ =>
          have second : y = x := by simp_all
          have ne := decimal.ne_x (c := y) (by simp)
          exact hex.1.elim (fun same => ne.1 (second.trans same)) fun same => ne.2 (second.trans same)
      · exact decimal.length_eq ends
    · exact decimal.length_eq ends

theorem fractionLength_le (cs : List Char) : fractionLength cs ≤ cs.length := by
  unfold fractionLength
  split
  · have := runLength_le isDigitOrSeparator ‹List Char›
    simp only [List.length_cons]
    omega
  · exact Nat.zero_le _

theorem exponentLength_le (cs : List Char) : exponentLength cs ≤ cs.length := by
  unfold exponentLength
  repeat' split
  all_goals first
    | exact Nat.zero_le _
    | have := runLength_le isDigitOrSeparator ‹List Char›
      simp only [List.length_cons]
      omega

/-- A part after a part stays inside the whole. -/
theorem add_drop_le {f : List Char → Nat} (le : ∀ cs, f cs ≤ cs.length) {k : Nat} (inside : k ≤ cs.length) :
    k + f (cs.drop k) ≤ cs.length := by
  have := le (cs.drop k)
  rw [List.length_drop] at this
  omega

theorem numberLength_le (cs : List Char) : numberLength cs ≤ cs.length := by
  have decimal : ∀ cs, numberLength.decimal cs ≤ cs.length := fun cs =>
    add_drop_le exponentLength_le (add_drop_le fractionLength_le (runLength_le _ cs))
  unfold numberLength
  split
  · split
    · rename_i rest _
      have := runLength_le (fun c => (hexValue? c).isSome || c == '_') rest
      simp only [List.length_cons]
      omega
    · exact decimal _
  · exact decimal _

theorem numberLength_pos (first : c.isDigit = true ∨ (c = '.' ∧ cs.head?.any Char.isDigit = true)) :
    0 < numberLength (c :: cs) := by
  have decimal : 0 < numberLength.decimal (c :: cs) := by
    unfold numberLength.decimal
    rcases first with digit | ⟨rfl, digit⟩
    · have counted : runLength isDigitOrSeparator (c :: cs) = runLength isDigitOrSeparator cs + 1 := by
        simp [runLength, isDigitOrSeparator_of_isDigit digit]
      simp only [counted]
      omega
    · have none_ : runLength isDigitOrSeparator ('.' :: cs) = 0 := by simp [runLength, isDigitOrSeparator]
      simp only [none_, List.drop_zero, fractionLength]
      omega
  unfold numberLength
  split
  · split
    · omega
    · exact decimal
  · exact decimal

theorem numberExtent_eq (first : c.isDigit = true ∨ (c = '.' ∧ (cs ++ rest).head?.any Char.isDigit = true))
    (eq : numberExtent c (cs ++ rest) = (.number, cs.length)) : IsNumberText (c :: cs) ∧ Ends isWordChar rest := by
  have positive := numberLength_pos first
  unfold numberExtent at eq
  simp only at eq
  split at eq
  · rename_i none_
    have length := (Prod.mk.inj eq).2
    rw [length, List.drop_left] at none_
    have text := isNumberText_take (c :: (cs ++ rest))
    rw [show numberLength (c :: (cs ++ rest)) = cs.length + 1 by omega, List.take_succ_cons, List.take_left] at text
    have none_ : runLength isWordChar ([] ++ rest) = ([] : List Char).length := none_
    exact ⟨text, (all_of_runLength none_).2⟩
  · cases (Prod.mk.inj eq).1

/-! ## Symbols -/

/-- The character makes a longer symbol of a symbol. -/
def lengthens (s : List Char) (c : Char) : Bool := symbols.any fun a => (s ++ [c]).isPrefixOf a

/-- A symbol that is found begins with the first character. -/
theorem mem_symbols_of_find? {s : List Char} (found : symbols.find? (·.isPrefixOf (c :: cs)) = some s) :
    s ∈ symbols ∧ s.head? = some c := by
  have mem := List.mem_of_find?_eq_some found
  have passes : s.isPrefixOf (c :: cs) = true := by simpa using List.find?_some found
  obtain ⟨more, eq⟩ := List.isPrefixOf_iff_prefix.1 passes
  match s, eq with
  | [], _ => exact absurd mem (by decide)
  | d :: s, eq => exact ⟨mem, congrArg some (List.cons.inj eq).1⟩

/-- A symbol is found where nothing makes a longer one of it. -/
theorem find?_symbols {s : List Char} (mem : s ∈ symbols) (ends : Ends (lengthens s) rest) :
    symbols.find? (·.isPrefixOf (s ++ rest)) = some s := by
  have before : symbols.Pairwise fun a b => a.isPrefixOf b = false := by decide
  have some_ : (symbols.find? (·.isPrefixOf (s ++ rest))).isSome = true :=
    List.find?_isSome.2 ⟨s, mem, List.isPrefixOf_iff_prefix.2 (List.prefix_append s rest)⟩
  obtain ⟨a, found⟩ := Option.isSome_iff_exists.1 some_
  rw [found]
  obtain ⟨passes, as, bs, parts, earlier⟩ := List.find?_eq_some_iff_append.1 found
  have passes := List.isPrefixOf_iff_prefix.1 passes
  rw [parts] at mem before
  rcases List.mem_append.1 mem with first | later
  · have failed := earlier s first
    rw [List.isPrefixOf_iff_prefix.2 ⟨rest, rfl⟩] at failed
    cases failed
  · rcases List.mem_cons.1 later with same | later
    · rw [same]
    · have apart := (List.pairwise_cons.1 (List.pairwise_append.1 before).2.1).1 s later
      rcases List.prefix_or_prefix_of_prefix passes (List.prefix_append s rest) with shorter | ⟨more, longer⟩
      · rw [List.isPrefixOf_iff_prefix.2 shorter] at apart
        cases apart
      · -- the symbol that is found goes on after this one with the next character
        rw [← longer, List.prefix_append_right_inj] at passes
        match more, longer, passes with
        | [], longer, _ => rw [← longer, List.append_nil]
        | d :: more, longer, passes =>
          obtain ⟨others, eq⟩ := passes
          have next : rest.head? = some d := by rw [← eq]; rfl
          have failed := ends d next
          have lengthened : lengthens s d = true := by
            refine List.any_eq_true.2 ⟨a, List.mem_of_find?_eq_some found, List.isPrefixOf_iff_prefix.2 ⟨more, ?_⟩⟩
            rw [List.append_assoc]
            exact longer
          rw [lengthened] at failed
          cases failed

/-- Nothing makes a longer symbol of a symbol that is found. -/
theorem ends_of_find?_symbols {s : List Char} (found : symbols.find? (·.isPrefixOf (s ++ rest)) = some s) :
    Ends (lengthens s) rest := by
  have before : symbols.Pairwise fun a b => a.isPrefixOf b = false := by decide
  have steps : ∀ s ∈ symbols, ∀ a ∈ symbols, s.isPrefixOf a = true → s ≠ a → a.take (s.length + 1) ∈ symbols := by decide
  intro d next
  cases lengthened : lengthens s d with
  | false => rfl
  | true =>
    obtain ⟨a, mem, longer⟩ := List.any_eq_true.1 lengthened
    obtain ⟨more, longer⟩ := List.isPrefixOf_iff_prefix.1 longer
    have mem_s := List.mem_of_find?_eq_some found
    have step : s ++ [d] ∈ symbols := by
      have := steps s mem_s a mem (List.isPrefixOf_iff_prefix.2 ⟨[d] ++ more, by rw [← longer, List.append_assoc]⟩) (by
        rintro rfl
        have := congrArg List.length longer
        simp at this)
      rwa [← longer, List.take_left' (by simp)] at this
    obtain ⟨-, as, bs, parts, earlier⟩ := List.find?_eq_some_iff_append.1 found
    obtain ⟨others, rfl⟩ := List.head?_eq_some_iff.1 next
    rw [parts] at step before
    exfalso
    rcases List.mem_append.1 step with first | later
    · have failed := earlier _ first
      rw [List.isPrefixOf_iff_prefix.2 ⟨others, by simp⟩] at failed
      cases failed
    · rcases List.mem_cons.1 later with same | later
      · simp at same
      · have apart := (List.pairwise_cons.1 (List.pairwise_append.1 before).2.1).1 _ later
        rw [List.isPrefixOf_iff_prefix.2 ⟨[d], rfl⟩] at apart
        cases apart

end Dossier.Sql
