import Dossier.Proofs.Sql.Token
import Dossier.Raw.Predicate

/-!
# Fragments scanned twice

The rewriting of a fragment splits it into pieces of its own, which are not the tokens of the engine. `rewritten` is the
rewritten text of what is left of a fragment; at the beginning of a plain token the two splits agree, and all but the words
comes out as it is.
-/

namespace Dossier.Raw

open Text Sql

variable {source : String} {c : Char} {cs rest : List Char}

/-- The rewritten text of a fragment. -/
def rewritten (source : String) (cs : List Char) : List Char := resolvePieces source (pieces cs)

@[simp] theorem rewritten_nil (source : String) : rewritten source [] = [] := by simp [rewritten, pieces, resolvePieces]

/-- The character is a piece by itself wherever it begins one. -/
def isOther (c : Char) : Bool := (closing? c).isNone && !isPlaceholderStart c && !c.isDigit && !isWordStart c

theorem rewritten_other (h : isOther c = true) : rewritten source (c :: rest) = c :: rewritten source rest := by
  simp only [isOther, Bool.and_eq_true, Option.isNone_iff_eq_none, Bool.not_eq_true'] at h
  obtain ⟨⟨⟨quote, placeholder⟩, digit⟩, word⟩ := h
  unfold rewritten
  rw [pieces]
  simp only [quote, placeholder, digit, word, Bool.false_eq_true, if_false]
  rfl

theorem rewritten_others (h : cs.all isOther = true) : rewritten source (cs ++ rest) = cs ++ rewritten source rest := by
  induction cs with
  | nil => rfl
  | cons c cs ih =>
    rw [List.all_cons, Bool.and_eq_true] at h
    rw [List.cons_append, rewritten_other h.1, ih h.2, List.cons_append]

/-! ## Quotes -/

theorem quotedRun_of_ne {q : Char} (ne : c ≠ q) :
    quotedRun q (c :: cs) = (c :: (quotedRun q cs).1, (quotedRun q cs).2) := by
  cases cs with
  | nil => rfl
  | cons d more => rw [quotedRun, if_neg ne]

theorem quotedRun_of_ends {q : Char} (ends : Ends (· == q) cs) : quotedRun q (q :: cs) = ([q], cs) := by
  cases cs with
  | nil => rfl
  | cons d more => simp [quotedRun, show d ≠ q by simpa using ends d rfl]

theorem quotedRun_double {q : Char} (bracket : q ≠ ']') (cs : List Char) :
    quotedRun q (q :: q :: cs) = (q :: q :: (quotedRun q cs).1, (quotedRun q cs).2) := by simp [quotedRun, bracket]

/-- A run goes on over what is doubled, whatever comes then. -/
theorem quotedRun_doubled {q : Char} (bracket : q ≠ ']') (cs after : List Char) :
    quotedRun q (doubled q cs ++ after) = (doubled q cs ++ (quotedRun q after).1, (quotedRun q after).2) := by
  induction cs with
  | nil => rfl
  | cons c cs ih =>
    by_cases same : c = q
    · subst same
      rw [doubled_cons_self, List.cons_append, List.cons_append, quotedRun_double bracket, ih]
      rfl
    · rw [doubled_cons_of_ne same, List.cons_append, quotedRun_of_ne same, ih]
      rfl

/-- What a run takes is a text with doubled quotes. -/
theorem exists_doubled_of_quotedRun {q : Char} {run after : List Char} (bracket : q ≠ ']') (cs : List Char)
    (taken : quotedRun q cs = (run, after)) :
    ∃ body, (run = doubled q body ++ [q] ∧ Ends (· == q) after) ∨ (run = doubled q body ∧ after = []) := by
  match cs with
  | [] =>
    obtain ⟨rfl, rfl⟩ := Prod.mk.inj taken
    exact ⟨[], .inr ⟨rfl, rfl⟩⟩
  | c :: more =>
    by_cases closes : c = q
    · subst closes
      by_cases twice : more.head? = some c
      · obtain ⟨others, rfl⟩ := List.head?_eq_some_iff.1 twice
        rw [quotedRun_double bracket] at taken
        obtain ⟨rfl, rfl⟩ := Prod.mk.inj taken
        obtain ⟨body, ⟨whole, ends⟩ | ⟨whole, empty⟩⟩ := exists_doubled_of_quotedRun bracket others rfl
        · exact ⟨c :: body, .inl ⟨by rw [whole, doubled_cons_self]; rfl, ends⟩⟩
        · exact ⟨c :: body, .inr ⟨by rw [whole, doubled_cons_self], empty⟩⟩
      · have ends : Ends (· == c) more := ends_beq_iff.2 twice
        rw [quotedRun_of_ends ends] at taken
        obtain ⟨rfl, rfl⟩ := Prod.mk.inj taken
        exact ⟨[], .inl ⟨rfl, ends⟩⟩
    · rw [quotedRun_of_ne closes] at taken
      obtain ⟨rfl, rfl⟩ := Prod.mk.inj taken
      obtain ⟨body, ⟨whole, ends⟩ | ⟨whole, empty⟩⟩ := exists_doubled_of_quotedRun bracket more rfl
      · exact ⟨c :: body, .inl ⟨by rw [whole, doubled_cons_of_ne closes]; rfl, ends⟩⟩
      · exact ⟨c :: body, .inr ⟨by rw [whole, doubled_cons_of_ne closes], empty⟩⟩

/-- A run is a text with doubled quotes and the quote that closes it, before what does not begin with a quote, or it is
never closed and there is nothing after it. -/
theorem quotedRun_eq_iff {q : Char} {run after : List Char} (bracket : q ≠ ']') : quotedRun q (run ++ after) = (run, after)
    ↔ ∃ body, (run = doubled q body ++ [q] ∧ Ends (· == q) after) ∨ (run = doubled q body ∧ after = []) := by
  refine ⟨exists_doubled_of_quotedRun bracket _, ?_⟩
  rintro ⟨body, ⟨rfl, ends⟩ | ⟨rfl, rfl⟩⟩
  · rw [List.append_assoc, List.singleton_append, quotedRun_doubled bracket, quotedRun_of_ends ends]
  · rw [quotedRun_doubled bracket, quotedRun, List.append_nil]

/-- What the engine takes between delimiters, the scanner takes. -/
theorem quotedRun_of_quoteLength? {q : Char} (bracket : q ≠ ']') (cs : List Char) (closed : quoteLength? q cs = some cs.length)
    (ends : Ends (· == q) rest) : quotedRun q (cs ++ rest) = (cs, rest) := by
  have whole : quoteLength? q (cs ++ []) = some cs.length := by rwa [List.append_nil]
  obtain ⟨body, rfl⟩ := (quoteLength?_eq_length_iff.1 whole).1
  exact (quotedRun_eq_iff bracket).2 ⟨body, .inl ⟨rfl, ends⟩⟩

/-- What the engine takes between brackets, the scanner takes. -/
theorem quotedRun_of_bracketLength? (closed : bracketLength? cs = some cs.length) :
    quotedRun ']' (cs ++ rest) = (cs, rest) := by
  induction cs with
  | nil => cases closed
  | cons c cs ih =>
    by_cases closes : c = ']'
    · subst closes
      have length : cs.length = 0 := by simpa [bracketLength?, runLength] using closed
      obtain rfl := List.length_eq_zero_iff.1 length
      cases rest with
      | nil => rfl
      | cons d more => simp [quotedRun]
    · have inner : bracketLength? cs = some cs.length := by
        have one : runLength (· != ']') (c :: cs) = runLength (· != ']') cs + 1 := by simp [runLength, closes]
        unfold bracketLength? at closed ⊢
        simp only [one, List.length_cons, Nat.add_lt_add_iff_right, Option.ite_none_right_eq_some, Option.some.injEq,
          Nat.add_right_cancel_iff] at closed ⊢
        exact closed
      rw [List.cons_append, quotedRun_of_ne closes, ih inner]

theorem pieces_of_closing? {q : Char} (opens : closing? c = some q) :
    pieces (c :: cs) = .quoted (c :: (quotedRun q cs).1) :: pieces (quotedRun q cs).2 := by
  rw [pieces]
  split
  · rename_i close eq
    rw [opens] at eq
    obtain rfl := Option.some.inj eq
    rfl
  · rename_i eq
    rw [opens] at eq
    cases eq

theorem rewritten_quoted {q : Char} (opens : closing? c = some q) (run : quotedRun q (cs ++ rest) = (cs, rest)) :
    rewritten source (c :: (cs ++ rest)) = c :: (cs ++ rewritten source rest) := by
  rw [rewritten, pieces_of_closing? opens, run]
  rfl

/-! ## Characters -/

theorem isWordChar_of_isAlphanumeric (h : isAlphanumeric c = true) : Sql.isWordChar c = true := by
  unfold isAlphanumeric at h
  split at h
  · simp [Sql.isWordChar, h]
  · rename_i past
    have : 128 ≤ c.toNat := by simpa [isAscii] using past
    simp [Sql.isWordChar, this]

theorem goesOn_of_isNumberChar (h : isNumberChar c = true) : goesOn c = true := by
  simp only [isNumberChar, Bool.or_eq_true] at h
  rcases h with h | h
  · simp [goesOn, isWordChar_of_isAlphanumeric h]
  · simp [goesOn, h]

theorem isAscii_of_isAlphanum (h : c.isAlphanum = true) : isAscii c = true := by
  rw [isAlphanum_iff_toNat] at h
  simp only [isAscii, decide_eq_true_eq]
  omega

theorem isAlphanumeric_of_isAlphanum (h : c.isAlphanum = true) : isAlphanumeric c = true := by
  rw [isAlphanumeric, if_pos (isAscii_of_isAlphanum h), h]

theorem isAlphanumeric_of_isDigit (digit : c.isDigit = true) : isAlphanumeric c = true :=
  isAlphanumeric_of_isAlphanum (by simp [Char.isAlphanum, digit])

theorem isNumberChar_of_isAlphanum (h : c.isAlphanum = true) : isNumberChar c = true := by
  simp [isNumberChar, isAlphanumeric_of_isAlphanum h]

theorem not_isWordStart_of_isDigit (digit : c.isDigit = true) : isWordStart c = false := by
  have ascii := isAscii_of_isAlphanum (c := c) (by simp [Char.isAlphanum, digit])
  simp only [isWordStart, isAlphabetic, ascii, if_true, Bool.or_eq_false_iff, beq_eq_false_iff_ne]
  refine ⟨Bool.eq_false_iff.2 fun letter => ?_, ?_⟩
  · rw [isAlpha_iff_toNat] at letter
    have last := (Char.isDigit_iff_toNat.1 digit).2
    have : '9'.toNat = 57 := rfl
    omega
  · rintro rfl
    exact absurd digit (by decide)

/-- Neither a delimiter nor the sign of a placeholder is a character of a name. -/
theorem plain_of_isNameChar (h : isNameChar c = true) : closing? c = none ∧ isPlaceholderStart c = false := by
  have ne : ∀ d, isNameChar d = false → c ≠ d := by
    rintro d other rfl
    rw [h] at other
    cases other
  simp [closing?, isPlaceholderStart, ne '\'' (by decide), ne '"' (by decide), ne '\x60' (by decide), ne '[' (by decide),
    ne '?' (by decide), ne ':' (by decide), ne '@' (by decide), ne '$' (by decide)]

/-! ## Numbers -/

/-- A run that begins with a digit is one piece. -/
theorem rewritten_run (digit : c.isDigit = true) (all : cs.all isNumberChar = true) (ends : Ends isNumberChar rest) :
    rewritten source (c :: (cs ++ rest)) = c :: (cs ++ rewritten source rest) := by
  obtain ⟨quote, placeholder⟩ := plain_of_isNameChar (c := c) (by simp [isNameChar, isAlphanumeric_of_isDigit digit])
  have stops : rest.takeWhile isNumberChar = [] ∧ rest.dropWhile isNumberChar = rest := by
    cases rest with
    | nil => exact ⟨rfl, rfl⟩
    | cons d more => simp [ends d rfl]
  unfold rewritten
  rw [pieces]
  simp only [quote, placeholder, digit, Bool.false_eq_true, if_false, if_true]
  rw [List.takeWhile_append_of_pos (by simpa using all), List.dropWhile_append_of_pos (by simpa using all), stops.1, stops.2]
  simp [resolvePieces, Piece.chars]

/-- A run that begins as a number does comes out as it is. -/
theorem rewritten_numeral (first : c.isDigit = true ∨ (c = '.' ∧ cs.head?.any Char.isDigit = true))
    (all : cs.all isNumberChar = true) (ends : Ends isNumberChar rest) :
    rewritten source (c :: (cs ++ rest)) = c :: (cs ++ rewritten source rest) := by
  rcases first with digit | ⟨rfl, digit⟩
  · exact rewritten_run digit all ends
  · match cs with
    | [] => cases digit
    | d :: more =>
      rw [List.all_cons, Bool.and_eq_true] at all
      rw [rewritten_other (by decide), List.cons_append, rewritten_run digit all.2 ends]
      rfl

theorem isNumberChar_of_isDigitOrSeparator (h : isDigitOrSeparator c = true) (plain : c ≠ '_') : isNumberChar c = true := by
  simp only [isDigitOrSeparator, Bool.or_eq_true, beq_iff_eq, plain, or_false] at h
  exact isNumberChar_of_isAlphanum (by simp [Char.isAlphanum, h])

/-- A number without separators is one run, perhaps with a sign and another run after it. -/
theorem IsNumberText.runs (number : IsNumberText cs) (plain : '_' ∉ cs) : cs.all isNumberChar = true
    ∨ ∃ run sign d ds, cs = run ++ sign :: d :: ds ∧ run.all isNumberChar = true ∧ (sign = '+' ∨ sign = '-')
      ∧ d.isDigit = true ∧ ds.all isNumberChar = true := by
  have digits : ∀ {ds : List Char}, ds.all isDigitOrSeparator = true → '_' ∉ ds → ∀ d ∈ ds, isNumberChar d = true := by
    intro ds all apart d mem
    exact isNumberChar_of_isDigitOrSeparator (List.all_eq_true.1 all d mem) fun same => apart (same ▸ mem)
  rcases number with ⟨x, h, ds, rfl, marked, digit, all⟩ | ⟨whole, fraction, exponent, decimal⟩
  · left
    simp only [List.mem_cons, not_or] at plain
    simp only [List.all_cons, Bool.and_eq_true, List.all_eq_true]
    refine ⟨by decide, by rcases marked with rfl | rfl <;> decide, isNumberChar_of_isAlphanum (isAlphanum_of_hexValue? digit), ?_⟩
    intro d mem
    have value := List.all_eq_true.1 all d mem
    have apart : (d == '_') = false := beq_eq_false_iff_ne.2 fun same => plain.2.2.2 (same ▸ mem)
    rw [apart, Bool.or_false] at value
    exact isNumberChar_of_isAlphanum (isAlphanum_of_hexValue? value)
  · obtain ⟨rfl, whole_, fraction_, exponent_⟩ := decimal
    simp only [List.mem_append, not_or] at plain
    have before : ∀ d ∈ whole ++ fraction, isNumberChar d = true := by
      intro d mem
      rcases List.mem_append.1 mem with mem | mem
      · exact digits whole_ plain.1 d mem
      · rcases fraction_ with rfl | ⟨ds, rfl, all⟩
        · cases mem
        · rcases List.mem_cons.1 mem with rfl | mem
          · decide
          · exact digits all (fun bad => plain.2.1 (List.mem_cons_of_mem _ bad)) d mem
    rcases exponent_ with rfl | ⟨e, sign, d, ds, letter, sign_, digit, all, rfl⟩
    · left
      rw [List.append_nil]
      exact List.all_eq_true.2 before
    · have letter : isNumberChar e = true := by rcases letter with rfl | rfl <;> decide
      have later : ∀ x ∈ ds, isNumberChar x = true := digits all fun bad => plain.2.2 (by simp [bad])
      have first := isNumberChar_of_isAlphanum (c := d) (by simp [Char.isAlphanum, digit])
      have signed : ∀ s : Char, (s = '+' ∨ s = '-') → ∃ run sign d' ds', whole ++ (fraction ++ e :: (s :: d :: ds))
          = run ++ sign :: d' :: ds' ∧ run.all isNumberChar = true ∧ (sign = '+' ∨ sign = '-') ∧ d'.isDigit = true
            ∧ ds'.all isNumberChar = true := by
        intro s which
        refine ⟨whole ++ fraction ++ [e], s, d, ds, by simp, ?_, which, digit, List.all_eq_true.2 later⟩
        rw [List.all_append, List.all_eq_true.2 before]
        simp [letter]
      rcases sign_ with rfl | rfl | rfl
      · left
        rw [← List.append_assoc, List.all_append, List.all_eq_true.2 before]
        simp only [List.nil_append, List.all_cons, letter, first, Bool.true_and]
        exact List.all_eq_true.2 later
      · exact .inr (signed '+' (.inl rfl))
      · exact .inr (signed '-' (.inr rfl))

/-- A number without separators comes out as it is. -/
theorem rewritten_number (first : c.isDigit = true ∨ (c = '.' ∧ cs.head?.any Char.isDigit = true))
    (number : IsNumberText (c :: cs)) (plain : '_' ∉ c :: cs) (ends : Ends isNumberChar rest) :
    rewritten source (c :: (cs ++ rest)) = c :: (cs ++ rewritten source rest) := by
  rcases IsNumberText.runs number plain with all | ⟨run, sign, d, ds, eq, all, which, digit, later⟩
  · rw [List.all_cons, Bool.and_eq_true] at all
    exact rewritten_numeral first all.2 ends
  · have other : isOther sign = true ∧ isNumberChar sign = false ∧ sign.isDigit = false := by
      rcases which with rfl | rfl <;> decide
    match run, eq, all with
    | [], eq, _ =>
      -- a number begins with no sign
      obtain ⟨rfl, -⟩ := List.cons.inj eq
      rcases first with bad | ⟨rfl, -⟩
      · rw [other.2.2] at bad
        cases bad
      · rcases which with bad | bad <;> cases bad
    | first_ :: body, eq, all =>
      obtain ⟨rfl, rfl⟩ := List.cons.inj (show c :: cs = first_ :: (body ++ sign :: d :: ds) from eq)
      rw [List.all_cons, Bool.and_eq_true] at all
      have first' : c.isDigit = true ∨ (c = '.' ∧ body.head?.any Char.isDigit = true) := by
        refine first.imp_right (And.imp_right fun head => ?_)
        match body with
        | [] =>
          rw [List.nil_append, List.head?_cons, Option.any_some, other.2.2] at head
          cases head
        | _ :: _ => exact head
      have stops : Ends isNumberChar (sign :: (d :: (ds ++ rest))) := fun x next => by cases next; exact other.2.1
      have split : ∀ tail, body ++ sign :: d :: ds ++ tail = body ++ sign :: (d :: (ds ++ tail)) := fun tail => by simp
      rw [split, split, rewritten_numeral first' all.2 stops, rewritten_other other.1, rewritten_run digit later ends]

/-! ## Words -/

/-- The words of the scanner. -/
theorem rewritten_word (first : isWordStart c = true) (all : cs.all isWordChar = true) (ends : Ends isWordChar rest) :
    rewritten source (c :: (cs ++ rest)) = resolveWord source (opensCall rest) (c :: cs) ++ rewritten source rest := by
  have name : isNameChar c = true := by
    simp only [isWordStart, Bool.or_eq_true] at first
    rcases first with letter | line
    · simp [isNameChar, isAlphanumeric_of_isAlphabetic letter]
    · simp [isNameChar, line]
  have digit : c.isDigit = false := by
    cases digit : c.isDigit with
    | false => rfl
    | true => rw [not_isWordStart_of_isDigit digit] at first; cases first
  obtain ⟨quote, placeholder⟩ := plain_of_isNameChar name
  have stops : rest.takeWhile isWordChar = [] ∧ rest.dropWhile isWordChar = rest := by
    cases rest with
    | nil => exact ⟨rfl, rfl⟩
    | cons d more => simp [ends d rfl]
  unfold rewritten
  rw [pieces]
  simp only [quote, placeholder, digit, first, Bool.false_eq_true, if_false, if_true]
  rw [List.takeWhile_append_of_pos (by simpa using all), List.dropWhile_append_of_pos (by simpa using all), stops.1, stops.2]
  rw [resolvePieces, flatMap_chars_pieces, List.append_nil]

end Dossier.Raw
