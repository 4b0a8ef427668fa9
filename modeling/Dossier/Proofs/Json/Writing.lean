import Dossier.Sql.Document

/-!
# Written strings and numbers

`escapeString` writes a string between quotes, `Number.intText` and `Number.binaryText` write numbers. All
they write is of the JSON grammar, and a written string reads back as itself, also as the key of a member.
-/

namespace Dossier

open Text Decimal

/-! ## Strings -/

theorem hexNumber_hexDigits_four {n : Nat} (h : n < 32) : hexNumber? (hexDigits 4 n) = some n := by
  have key : ∀ m : Fin 32, hexNumber? (hexDigits 4 m) = some m.val := by decide
  exact key ⟨n, h⟩

theorem isHex_hexDigits_four {n : Nat} (h : n < 32) : (hexDigits 4 n).all Tree.isHex = true := by
  have key : ∀ m : Fin 32, (hexDigits 4 m.val).all Tree.isHex = true := by decide
  exact key ⟨n, h⟩

theorem hexDigits_four (n : Nat) : ∃ a b c d, hexDigits 4 n = [a, b, c, d] := ⟨_, _, _, _, rfl⟩

/-- A written character gives back its code point. -/
theorem stringCodes_escapeChar_append (c : Char) (rest : List Char) :
    stringCodes (escapeChar c ++ rest) = c.toNat :: stringCodes rest := by
  unfold escapeChar
  cases h : shortEscape? c with
  | some e =>
    unfold shortEscape? at h
    split at h <;> cases h <;> rename_i hn <;> simp [stringCodes, unescapeLetter, hn]
  | none =>
    obtain ⟨x, y, z, u, digits⟩ := hexDigits_four c.toNat
    by_cases low : c.toNat < 0x20
    · have number := hexNumber_hexDigits_four low
      rw [digits] at number
      simp [low, digits, stringCodes, number]
    · have plain : c ≠ '\\' := by rintro rfl; simp [shortEscape?] at h
      simp [low, stringCodes, plain]

theorem stringCodes_escapeString (s : List Char) :
    stringCodes (s.flatMap escapeChar) = s.map Char.toNat := by
  induction s with
  | nil => rfl
  | cons c s ih => rw [List.flatMap_cons, stringCodes_escapeChar_append, ih, List.map_cons]

/-- No character is half of a surrogate pair. -/
theorem not_surrogate (c : Char) : isHighSurrogate c.toNat = false ∧ isLowSurrogate c.toNat = false := by
  have valid : c.toNat < 0xd800 ∨ 0xdfff < c.toNat ∧ c.toNat < 0x110000 := c.valid
  simp only [isHighSurrogate, isLowSurrogate, Bool.and_eq_false_iff, decide_eq_false_iff_not]
  omega

theorem joinPairs_toNat (lone : Option Char) : ∀ s : List Char, joinPairs lone (s.map Char.toNat) = some s
  | [] => rfl
  | [c] => by simp [joinPairs, not_surrogate]
  | c :: d :: s => by
    have rest := joinPairs_toNat lone (d :: s)
    simp only [List.map_cons] at rest
    simp [joinPairs, not_surrogate, rest]

theorem unescape_escapeString (s : String) : unescape? (escapeString s) = some s := by
  simp [unescape?, escapeString, stringCodes_escapeString, joinPairs_toNat]

theorem stringText_escapeString (s : String) : Tree.stringText (escapeString s) = s := by
  simp [Tree.stringText, escapeString, stringCodes_escapeString, joinPairs_toNat]

theorem isStringBody_escapeChar_append (c : Char) (rest : List Char) :
    Tree.isStringBody (escapeChar c ++ rest) = Tree.isStringBody rest := by
  unfold escapeChar
  cases h : shortEscape? c with
  | some e =>
    unfold shortEscape? at h
    split at h <;> cases h <;> simp [Tree.isStringBody]
  | none =>
    obtain ⟨x, y, z, u, digits⟩ := hexDigits_four c.toNat
    by_cases low : c.toNat < 0x20
    · have hex := isHex_hexDigits_four low
      rw [digits] at hex
      simp at hex
      simp [low, digits, Tree.isStringBody, hex]
    · have plain : c ≠ '\\' ∧ c ≠ '"' := by
        constructor <;> (rintro rfl; simp [shortEscape?] at h)
      simp [low, Tree.isStringBody, plain]
      omega

theorem isStringBody_escapeString (s : String) : Tree.isStringBody (escapeString s) = true := by
  unfold escapeString
  induction s.toList with
  | nil => rfl
  | cons c s ih => rw [List.flatMap_cons, isStringBody_escapeChar_append, ih]

/-! ## Numbers -/

theorem isDigit_of_mem_natDigits {n : Nat} {c : Char} (h : c ∈ natDigits n) : c.isDigit = true :=
  Nat.isDigit_of_mem_toDigits (by decide) (by decide) h

theorem natDigits_ne_nil (n : Nat) : natDigits n ≠ [] := Nat.toDigits_ne_nil

theorem decimalNumber_natDigits (n : Nat) : decimalNumber (natDigits n) = n := by
  have eq := Nat.ofDigitChars_toDigits (b := 10) (n := n) (by decide) (by decide)
  rwa [Nat.ofDigitChars_eq_foldl] at eq

/-- The digits of a number that is not zero begin with another digit than zero. -/
theorem head?_natDigits {n : Nat} (h : n ≠ 0) : (natDigits n).head? ≠ some '0' := by
  induction n using Nat.strongRecOn with
  | ind n ih =>
    unfold natDigits
    rw [Nat.toDigits_eq_if (by decide)]
    split
    · have key : ∀ m : Fin 10, m.val ≠ 0 → Nat.digitChar m ≠ '0' := by decide
      simpa using key ⟨n, ‹_›⟩ h
    · have first := ih (n / 10) (by omega) (by omega)
      unfold natDigits at first
      rw [List.head?_append, Option.or_of_isSome (by simp [List.isSome_head?, Nat.toDigits_ne_nil])]
      exact first

namespace Tree

/-- Digits with no digit after them are read to their end. -/
theorem digits?_append (ds rest : List Char) (ne : ds ≠ []) (digits : ∀ c ∈ ds, c.isDigit = true)
    (stop : ∀ c ∈ rest.head?, c.isDigit = false) : digits? (ds ++ rest) = some (ds, rest) := by
  have tail : rest.takeWhile Char.isDigit = [] ∧ rest.dropWhile Char.isDigit = rest := by
    cases rest with
    | nil => simp
    | cons c rest => simp [stop c (by simp)]
  unfold digits?
  rw [List.takeWhile_append_of_pos digits, List.dropWhile_append_of_pos digits, tail.1, tail.2, List.append_nil]
  cases ds with
  | nil => exact absurd rfl ne
  | cons d ds => rfl

/-- Digits without a leading zero, and a fraction or an exponent, are a number. -/
theorem isUnsigned_append (ds rest : List Char) (ne : ds ≠ []) (digits : ∀ c ∈ ds, c.isDigit = true)
    (lead : ds.head? ≠ some '0' ∨ ds = ['0']) (stop : ∀ c ∈ rest.head?, c.isDigit = false)
    (fraction : isFraction rest = true) : isUnsigned (ds ++ rest) = true := by
  unfold isUnsigned
  rw [digits?_append ds rest ne digits stop]
  rcases lead with lead | rfl
  · cases ds with
    | nil => exact absurd rfl ne
    | cons d ds =>
      have : d ≠ '0' := by simpa using lead
      split <;> simp_all
  · exact fraction

end Tree

/-- Digits without a sign do not begin with one. -/
theorem isNumber_of_isUnsigned {cs : List Char} (h : Tree.isUnsigned cs = true) : Tree.isNumber cs = true := by
  unfold Tree.isNumber
  split
  · simp [Tree.isUnsigned, Tree.digits?] at h
  · exact h

theorem isNumber_intText (n : Int) : Tree.isNumber (Number.intText n) = true := by
  have unsigned : Tree.isUnsigned (natDigits n.natAbs) = true := by
    have lead : (natDigits n.natAbs).head? ≠ some '0' ∨ natDigits n.natAbs = ['0'] := by
      by_cases zero : n.natAbs = 0
      · exact .inr (by rw [zero]; rfl)
      · exact .inl (head?_natDigits zero)
    simpa using Tree.isUnsigned_append (natDigits n.natAbs) [] (natDigits_ne_nil _)
      (fun c => isDigit_of_mem_natDigits) lead (by simp) rfl
  unfold Number.intText
  split
  · exact unsigned
  · exact isNumber_of_isUnsigned unsigned

namespace Decimal.Digits

/-- At least one digit, and a leading zero only in zero itself. -/
structure Proper (d : Digits) : Prop where
  nonempty : d.digits ≠ []
  digits : ∀ c ∈ d.digits, c.isDigit = true
  lead : d.digits.head? ≠ some '0' ∨ d = ⟨['0'], 1⟩

theorem proper_zero : Proper ⟨['0'], 1⟩ := ⟨by simp, by simp, .inr rfl⟩

theorem proper_ofScaled (n : Nat) (unit : Int) : (ofScaled n unit).Proper := by
  have sub : ((natDigits n).reverse.dropWhile (· == '0')).reverse <+: natDigits n := by
    simpa using List.reverse_prefix.2 (List.dropWhile_suffix (l := (natDigits n).reverse) (· == '0'))
  have zero : n = 0 → ((natDigits n).reverse.dropWhile (· == '0')).reverse = [] := by rintro rfl; decide
  unfold ofScaled
  simp only
  generalize ((natDigits n).reverse.dropWhile (· == '0')).reverse = kept at sub zero
  cases kept with
  | nil => exact proper_zero
  | cons d ds =>
    obtain ⟨rest, whole⟩ := sub
    have nonzero : n ≠ 0 := fun h => by simpa using zero h
    have first := head?_natDigits nonzero
    rw [← whole] at first
    exact ⟨by simp, fun c hc => isDigit_of_mem_natDigits (n := n) (whole ▸ List.mem_append_left rest hc),
      .inl (by simpa using first)⟩

theorem proper_shortestFrom (h : Halfway) (point : Int) (remaining count : Nat) :
    (shortestFrom h point remaining count).Proper := by
  fun_induction shortestFrom h point remaining count with
  | case1 => exact proper_ofScaled _ _
  | case2 => exact proper_ofScaled _ _
  | case3 _ _ _ ih => exact ih

theorem proper_shortest (b : Binary) : (shortest b).Proper := by
  unfold shortest
  split
  · exact proper_zero
  · exact proper_shortestFrom _ _ _ _

theorem proper_significant (count : Nat) (b : Binary) : (significant count b).Proper := by
  unfold significant
  split
  · exact proper_zero
  · exact proper_ofScaled _ _

theorem isFraction_point (ds rest : List Char) (ne : ds ≠ []) (digits : ∀ c ∈ ds, c.isDigit = true)
    (stop : ∀ c ∈ rest.head?, c.isDigit = false) (exponent : Tree.isExponent rest = true) :
    Tree.isFraction ('.' :: (ds ++ rest)) = true := by
  simp only [Tree.isFraction, Tree.digits?_append ds rest ne digits stop]
  exact exponent

theorem isDigit_of_mem_replicate {n : Nat} {c : Char} (h : c ∈ List.replicate n '0') : c.isDigit = true := by
  rw [List.eq_of_mem_replicate h]; rfl

theorem isUnsigned_positional {d : Digits} (h : d.Proper) : Tree.isUnsigned d.positional = true := by
  unfold positional
  split
  · have fraction := isFraction_point (List.replicate (-d.point).toNat '0' ++ d.digits) []
      (by simp [h.nonempty])
      (fun c hc => (List.mem_append.1 hc).elim isDigit_of_mem_replicate (h.digits c)) (by simp) rfl
    exact Tree.isUnsigned_append ['0'] _ (by simp) (by simp) (.inr rfl) (by simp) (by simpa using fraction)
  · rename_i positive
    obtain ⟨whole, hw⟩ : ∃ whole, d.point.toNat = whole + 1 := ⟨d.point.toNat - 1, by omega⟩
    simp only [hw]
    generalize hp : d.digits ++ List.replicate (whole + 1 + 1 - d.digits.length) '0' = padded
    have digits : ∀ c ∈ padded, c.isDigit = true := by
      subst hp
      exact fun c hc => (List.mem_append.1 hc).elim (h.digits c) isDigit_of_mem_replicate
    have long : whole + 1 < padded.length := by subst hp; simp; omega
    have fraction := isFraction_point (padded.drop (whole + 1)) []
      (by rw [ne_eq, List.drop_eq_nil_iff]; omega) (fun c hc => digits c (List.mem_of_mem_drop hc)) (by simp) rfl
    refine Tree.isUnsigned_append _ _ (by rw [ne_eq, List.take_eq_nil_iff]; rintro (h | h) <;> simp_all)
      (fun c hc => digits c (List.mem_of_mem_take hc)) ?_ (by simp) (by simpa using fraction)
    rcases h.lead with lead | rfl
    · left
      rw [List.head?_take]
      cases hd : d.digits with
      | nil => exact absurd hd h.nonempty
      | cons c cs => subst hp; simpa [hd] using lead
    · have : whole = 0 := by simp at hw; omega
      subst this hp
      exact .inr rfl

theorem isExponent_exponentText (width : Nat) (e : Int) :
    Tree.isExponent ('e' :: exponentText width e) = true := by
  have digits := Tree.digits?_append
    (List.replicate (width - (natDigits e.natAbs).length) '0' ++ natDigits e.natAbs) [] (by simp [natDigits_ne_nil])
    (fun c hc => (List.mem_append.1 hc).elim isDigit_of_mem_replicate isDigit_of_mem_natDigits) (by simp)
  rw [List.append_nil] at digits
  unfold exponentText
  split <;> simp [Tree.isExponent, digits]

theorem isUnsigned_scientific {d : Digits} (h : d.Proper) (bare : Bool) (width : Nat) :
    Tree.isUnsigned (d.scientific bare width) = true := by
  cases hd : d.digits with
  | nil => exact absurd hd h.nonempty
  | cons c others =>
    have first : c.isDigit = true := h.digits c (by simp [hd])
    have lead : [c].head? ≠ some '0' ∨ [c] = ['0'] := by simp [or_comm, Classical.em]
    have exponent := isExponent_exponentText width (d.point - 1)
    unfold scientific
    rw [hd]
    cases others with
    | nil =>
      cases bare with
      | true => exact Tree.isUnsigned_append [c] _ (by simp) (by simp [first]) lead (by simp) exponent
      | false =>
        have fraction := isFraction_point ['0'] ('e' :: exponentText width (d.point - 1)) (by simp) (by simp) (by simp) exponent
        have := Tree.isUnsigned_append [c] _ (by simp) (by simp [first]) lead (by simp) fraction
        simpa using this
    | cons o os =>
      have fraction := isFraction_point (o :: os) ('e' :: exponentText width (d.point - 1)) (by simp)
        (fun x hx => h.digits x (by rw [hd]; exact List.mem_cons_of_mem _ hx)) (by simp) exponent
      have := Tree.isUnsigned_append [c] _ (by simp) (by simp [first]) lead (by simp) fraction
      simpa using this

end Decimal.Digits

theorem isNumber_binaryText (b : Binary) : Tree.isNumber (Number.binaryText b) = true := by
  have proper := Digits.proper_shortest b
  have unsigned : Tree.isUnsigned (if Number.positionalPoints.1 ≤ (shortest b).point
      && (shortest b).point ≤ Number.positionalPoints.2 then (shortest b).positional
      else (shortest b).scientific true 1) = true := by
    split
    · exact Digits.isUnsigned_positional proper
    · exact Digits.isUnsigned_scientific proper true 1
  unfold Number.binaryText
  simp only
  split
  · exact unsigned
  · exact isNumber_of_isUnsigned unsigned

/-- A double in fifteen digits, as the engine writes it. -/
theorem isNumber_valueText (b : Binary) : Tree.isNumber (Value.binaryText b) = true := by
  have proper := Digits.proper_significant Value.realDigits b
  have unsigned : Tree.isUnsigned (if -3 ≤ (significant Value.realDigits b).point
      && (significant Value.realDigits b).point ≤ (Value.realDigits : Int) then (significant Value.realDigits b).positional
      else (significant Value.realDigits b).scientific false 2) = true := by
    split
    · exact Digits.isUnsigned_positional proper
    · exact Digits.isUnsigned_scientific proper false 2
  unfold Value.binaryText
  simp only
  split
  · exact unsigned
  · exact isNumber_of_isUnsigned unsigned

end Dossier
