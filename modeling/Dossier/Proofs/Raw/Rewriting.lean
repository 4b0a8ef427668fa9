import Dossier.Collection.Check
import Dossier.Proofs.Raw.Formula
import Dossier.Proofs.Raw.Scanning
import Dossier.Proofs.Sql.Grammar

/-!
# What becomes of a formula

The text of a formula is rewritten into a condition on the body of a row. The engine reads there what it reads in the formula
itself, with the extraction of its path in the place of each field (`lexemesFrom_rewritten`).
-/

namespace Dossier.Raw

open Text Sql

variable {source : String} {c : Char} {cs rest : List Char} {t : Token} {ts : List Token} {terms : List Term}

/-! ## The next character -/

theorem resolveWord_eq_cons (source : String) (isCall : Bool) (c : Char) (cs : List Char) :
    ∃ d more, resolveWord source isCall (c :: cs) = d :: more ∧ (d = c ∨ d = 'i' ∨ d = 'j') := by
  unfold resolveWord
  simp only
  split
  · exact ⟨c, cs, rfl, .inl rfl⟩
  split
  · exact ⟨'i', ['d'], rfl, .inr (.inl rfl)⟩
  split
  · exact ⟨c, cs, rfl, .inl rfl⟩
  split
  · rename_i path _
    refine ⟨'j', "son_extract(".toList ++ (source ++ (", " ++ path.literal ++ ")")).toList, ?_, .inr (.inr rfl)⟩
    rw [extractText_eq]
    simp [String.toList_append]
  · exact ⟨c, cs, rfl, .inl rfl⟩

/-- A rewritten text begins as the text does, or with what stands for a word. -/
theorem head?_rewritten (source : String) (c : Char) (cs : List Char) :
    ∃ d more, rewritten source (c :: cs) = d :: more ∧ (d = c ∨ (isWordStart c = true ∧ (d = 'i' ∨ d = 'j'))) := by
  unfold rewritten
  rw [pieces]
  split
  · exact ⟨c, _, rfl, .inl rfl⟩
  split
  · exact ⟨c, _, rfl, .inl rfl⟩
  split
  · exact ⟨c, _, rfl, .inl rfl⟩
  split
  · rename_i first
    obtain ⟨d, more, eq, which⟩ := resolveWord_eq_cons source
      (opensCall ((pieces (cs.dropWhile isWordChar)).flatMap Piece.chars)) c (cs.takeWhile isWordChar)
    exact ⟨d, _, by rw [resolvePieces, eq, List.cons_append], which.imp_right fun which => ⟨first, which⟩⟩
  · exact ⟨c, _, rfl, .inl rfl⟩

/-- What does not go on with the beginning of a text does not go on with that of the rewritten text, if words do not
matter or all of them do. -/
theorem ends_rewritten {p : Char → Bool} (ends : Ends p cs) (ends' : Ends p rest)
    (words : (p 'i' = false ∧ p 'j' = false) ∨ ∀ d, isWordStart d = true → p d = true) :
    Ends p (rewritten source cs ++ rest) := by
  cases cs with
  | nil => simpa using ends'
  | cons c cs =>
    obtain ⟨d, more, eq, which⟩ := head?_rewritten source c cs
    rw [eq]
    intro x next
    obtain rfl : d = x := Option.some.inj next
    rcases which with rfl | ⟨first, which⟩
    · exact ends _ rfl
    · rcases words with ⟨i, j⟩ | all
      · rcases which with rfl | rfl
        · exact i
        · exact j
      · exact absurd (all c first) (by simp [ends c rfl])

theorem isWordChar_of_isWordStart (h : isWordStart c = true) : Sql.isWordChar c = true := by
  simp only [isWordStart, Bool.or_eq_true] at h
  rcases h with letter | line
  · exact isWordChar_of_isAlphanumeric (isAlphanumeric_of_isAlphabetic letter)
  · rw [beq_iff_eq] at line
    subst line
    decide

/-- No token but a string takes in an extraction, unless it takes in every word. -/
theorem takesIn_words (formed : t.IsFormed) :
    (t.takesIn 'i' = false ∧ t.takesIn 'j' = false) ∨ ∀ d, isWordStart d = true → t.takesIn d = true := by
  obtain ⟨kind, text⟩ := t
  obtain ⟨c, cs, rfl, formed⟩ := formed
  cases kind with
  | blank | string => exact .inl ⟨rfl, rfl⟩
  | quotedName =>
    left
    rcases formed with ⟨quote, -⟩ | ⟨rfl, -⟩
    · rcases quote with rfl | rfl <;> exact ⟨rfl, rfl⟩
    · exact ⟨rfl, rfl⟩
  | number => exact .inr fun d first => by simp [Token.takesIn, goesOn, isWordChar_of_isWordStart first]
  | word => exact .inr fun d first => by simp [Token.takesIn, isWordChar_of_isWordStart first]
  | symbol =>
    have all : ∀ s ∈ symbols, (Token.mk .symbol s).takesIn 'i' = false ∧ (Token.mk .symbol s).takesIn 'j' = false := by decide
    exact .inl (all _ formed)
  | comment | blob | «variable» | illegal => exact formed.elim

/-! ## Tokens that stay -/

theorem padding_cases (h : Value.isPadding c = true) :
    c = ' ' ∨ c = '\t' ∨ c = '\n' ∨ c = '\x0b' ∨ c = '\x0c' ∨ c = '\r' := by
  have same : ∀ d : Char, c.toNat = d.toNat → c = d := fun d eq => Char.ext (UInt32.toNat_inj.1 eq)
  simp only [Value.isPadding, Bool.or_eq_true, Bool.and_eq_true, decide_eq_true_eq] at h
  have cases_ : c.toNat = 32 ∨ c.toNat = 9 ∨ c.toNat = 10 ∨ c.toNat = 11 ∨ c.toNat = 12 ∨ c.toNat = 13 := by omega
  exact cases_.imp (same ' ') (Or.imp (same '\t') (Or.imp (same '\n') (Or.imp (same '\x0b') (Or.imp (same '\x0c') (same '\r')))))

theorem isOther_of_isPadding (h : Value.isPadding c = true) : isOther c = true := by
  rcases padding_cases h with rfl | rfl | rfl | rfl | rfl | rfl <;> decide

theorem isPadding_of_isSqlBlank (h : isSqlBlank c = true) : Value.isPadding c = true := by
  rcases sqlBlank_cases h with rfl | rfl | rfl | rfl | rfl <;> decide

/-- All but words come out as they are. -/
theorem rewritten_text (source : String) (formed : t.IsFormed) (ends : Ends t.takesIn rest) (word : t.kind ≠ .word)
    (plain : t.kind = .number → '_' ∉ t.text) : rewritten source (t.text ++ rest) = t.text ++ rewritten source rest := by
  obtain ⟨kind, text⟩ := t
  obtain ⟨c, cs, rfl, formed⟩ := formed
  cases kind with
  | blank =>
    refine rewritten_others ?_
    rw [List.all_cons, isOther_of_isPadding (isPadding_of_isSqlBlank formed.1), Bool.true_and, List.all_eq_true]
    exact fun d mem => isOther_of_isPadding (List.all_eq_true.1 formed.2 d mem)
  | string =>
    obtain ⟨rfl, closed⟩ := formed
    exact rewritten_quoted rfl (quotedRun_of_quoteLength? (by decide) cs closed ends)
  | quotedName =>
    rcases formed with ⟨quote, closed⟩ | ⟨rfl, closed⟩
    · have ends : Ends (· == c) rest := ends.imp fun d same => by
        rw [beq_iff_eq] at same
        subst same
        rcases quote with rfl | rfl <;> rfl
      rcases quote with rfl | rfl
      · exact rewritten_quoted rfl (quotedRun_of_quoteLength? (by decide) cs closed ends)
      · exact rewritten_quoted rfl (quotedRun_of_quoteLength? (by decide) cs closed ends)
    · exact rewritten_quoted rfl (quotedRun_of_bracketLength? closed)
  | number =>
    exact rewritten_number formed.1 formed.2 (plain rfl) (ends.imp fun d more => goesOn_of_isNumberChar more)
  | symbol =>
    have all : ∀ s ∈ symbols, s.all isOther = true := by decide
    exact rewritten_others (all _ formed)
  | word => exact absurd rfl word
  | comment | blob | «variable» | illegal => exact formed.elim

/-! ## Terms -/

/-- How the terms of tokens begin. -/
theorem terms?_cons (made : terms? (t :: ts) = some terms) :
    (t.kind = .blank ∧ t.text ≠ ['\ufeff'] ∧ terms? ts = some terms)
    ∨ (t.kind = .word ∧ (dotted ts).2.head?.any (collide t) = false ∧ ∃ term others,
        term? (callFollows (dotted ts).2) (t.text ++ (dotted ts).1) = some term ∧ terms? (dotted ts).2 = some others
        ∧ terms = term :: others)
    ∨ (t.kind ≠ .blank ∧ t.kind ≠ .word ∧ ts.head?.any (collide t) = false ∧ ∃ l others, t.lexeme? = some l
        ∧ terms? ts = some others ∧ terms = .lexeme l :: others) := by
  rw [terms?] at made
  split at made
  · rename_i blank
    split at made
    · cases made
    · exact .inl ⟨blank, ‹_›, made⟩
  · rename_i word
    simp only at made
    split at made
    · cases made
    · rename_i apart
      obtain ⟨term, one, made⟩ := Option.bind_eq_some_iff.1 made
      obtain ⟨others, later, eq⟩ := Option.bind_eq_some_iff.1 made
      exact .inr (.inl ⟨word, Bool.eq_false_iff.2 apart, term, others, one, later, (Option.some.inj eq).symm⟩)
  · rename_i blank word
    split at made
    · cases made
    · rename_i apart
      obtain ⟨l, one, made⟩ := Option.bind_eq_some_iff.1 made
      obtain ⟨others, later, eq⟩ := Option.bind_eq_some_iff.1 made
      exact .inr (.inr ⟨blank, word, Bool.eq_false_iff.2 apart, l, others, one, later, (Option.some.inj eq).symm⟩)

theorem isPlain_of_terms? (made : terms? (t :: ts) = some terms) : t.isPlain = true := by
  rcases terms?_cons made with ⟨kind, mark, -⟩ | ⟨kind, -⟩ | ⟨blank, word, -, l, -, lexeme, -⟩
  · simpa [Token.isPlain, kind] using mark
  · simp [Token.isPlain, kind]
  · unfold Token.lexeme? at lexeme
    unfold Token.isPlain
    split at lexeme <;> simp_all

/-- A word that is a term begins as words do. -/
theorem isWordStart_of_term? {isCall : Bool} {w : List Char} {term : Term} (made : term? isCall w = some term) :
    w.head?.any isWordStart = true ∧ w.all isWordChar = true := by
  unfold term? at made
  simp only at made
  split at made
  · cases made
  · rename_i plain
    simpa using plain

/-! ## Blanks -/

/-- The blanks past ASCII, as closed ranges of codes. -/
def blankRanges : List (Nat × Nat) :=
  [(0x85, 0x85), (0xa0, 0xa0), (0x1680, 0x1680), (0x2000, 0x200a), (0x2028, 0x2029), (0x202f, 0x202f), (0x205f, 0x205f),
    (0x3000, 0x3000)]

/-- No range of letters or digits meets one of blanks. -/
theorem ranges_apart : ((alphabeticRanges ++ numericRanges).all fun r =>
    blankRanges.all fun b => r.2.blt b.1 || b.2.blt r.1) = true := by decide +kernel

theorem inRanges_blankRanges {n : Nat} (blank : inRanges blankRanges n = true) :
    (inRanges alphabeticRanges n || inRanges numericRanges n) = false := by
  obtain ⟨b, known, within⟩ := List.any_eq_true.1 blank
  have outside : ∀ r ∈ alphabeticRanges ++ numericRanges, (decide (r.1 ≤ n) && decide (n ≤ r.2)) = false := by
    intro r mem
    have apart := List.all_eq_true.1 (List.all_eq_true.1 ranges_apart r mem) b known
    simp only [Bool.or_eq_true, Nat.blt_eq, Bool.and_eq_true, decide_eq_true_eq] at apart within
    simp only [Bool.and_eq_false_imp, decide_eq_true_eq, decide_eq_false_iff_not]
    omega
  rw [inRanges, inRanges, ← List.any_append, List.any_eq_false]
  exact fun r mem => Bool.eq_false_iff.1 (outside r mem)

/-- No blank is a character of a name. -/
theorem not_isBlank_of_isNameChar (name : isNameChar c = true) : isBlank c = false := by
  refine Bool.eq_false_iff.2 fun blank => ?_
  by_cases padding : Value.isPadding c = true
  · rcases padding_cases padding with rfl | rfl | rfl | rfl | rfl | rfl <;> exact absurd name (by decide)
  · simp only [isBlank, Bool.or_eq_true, Bool.and_eq_true, decide_eq_true_eq] at blank
    simp only [Value.isPadding, Bool.or_eq_true, Bool.and_eq_true, decide_eq_true_eq] at padding
    have past : inRanges blankRanges c.toNat = true := by
      simp only [inRanges, blankRanges, List.any_cons, List.any_nil, Bool.or_eq_true, Bool.and_eq_true, decide_eq_true_eq]
      omega
    have ascii : isAscii c = false := by
      simp only [isAscii, decide_eq_false_iff_not]
      omega
    have line : (c == '_') = false := by
      refine beq_eq_false_iff_ne.2 ?_
      rintro rfl
      exact absurd past (by decide)
    simp [isNameChar, isAlphanumeric, ascii, inRanges_blankRanges past, line] at name

theorem isNameChar_of_isWordStart (h : isWordStart c = true) : isNameChar c = true := by
  simp only [isWordStart, isNameChar, Bool.or_eq_true] at h ⊢
  exact h.imp_left isAlphanumeric_of_isAlphabetic

theorem isNameChar_of_isDigit (digit : c.isDigit = true) : isNameChar c = true := by
  simp [isNameChar, isAlphanumeric_of_isDigit digit]

theorem isBlank_of_isPadding (h : Value.isPadding c = true) : isBlank c = true := by
  simp only [Value.isPadding, isBlank, Bool.or_eq_true, Bool.and_eq_true, decide_eq_true_eq] at h ⊢
  omega

theorem blank_of_reaches {body : List Char} (h : Reaches c (body ++ rest) .blank body.length) :
    isSqlBlank c = true ∧ body.all Value.isPadding = true := by
  generalize eq : body.length = n at h
  cases h with
  | blank first => exact ⟨first, (all_of_runLength eq.symm).1⟩

/-- What begins a token that is none of blanks is no blank. -/
theorem not_isBlank_of_reaches {kind : TokenKind} {n : Nat} (h : Reaches c cs kind n) (blank : kind ≠ .blank)
    (word : kind = .word → isWordStart c = true) : isBlank c = false := by
  cases h with
  | blank => exact absurd rfl blank
  | string first => subst first; decide
  | quotedName first => rcases first with rfl | rfl <;> decide
  | bracket first => subst first; decide
  | number first =>
    rcases first with digit | ⟨rfl, -⟩
    · exact not_isBlank_of_isNameChar (isNameChar_of_isDigit digit)
    · decide
  | word => exact not_isBlank_of_isNameChar (isNameChar_of_isWordStart (word rfl))
  | @symbol s found =>
    have all : ∀ s ∈ symbols, s.head?.any (fun c => !isBlank c) = true := by decide
    obtain ⟨mem, first⟩ := mem_symbols_of_find? found
    have plain := all s mem
    rw [first] at plain
    simpa using plain

/-- Tokens up to the first that is no blank, and how that one begins. -/
inductive Led : List Token → Prop
  | nil : Led []
  | blank {t : Token} {ts : List Token} (plain : t.isPlain = true) (blank : t.kind = .blank) (later : Led ts) : Led (t :: ts)
  | other {t : Token} {ts : List Token} (blank : t.kind ≠ .blank) (first : t.text.head?.any isBlank = false)
    (alone : t.text.head? = some '(' → t.text = ['(']) : Led (t :: ts)

/-- The scanner finds the parenthesis of a call where the tokens have it. -/
theorem Led.opensCall_eq (led : Led ts) (here : tokens cs = ts) : opensCall cs = callFollows ts := by
  induction led generalizing cs with
  | nil =>
    cases cs with
    | nil => rfl
    | cons c cs => rw [tokens] at here; cases here
  | @blank t ts plain blank _ ih =>
    obtain ⟨c, body, rest, text, rfl, reaches, later⟩ := reaches_of_tokens here plain
    have all : (c :: body).all isBlank = true := by
      obtain ⟨first, all⟩ := blank_of_reaches (blank ▸ reaches)
      rw [List.all_cons, isBlank_of_isSqlBlank first, Bool.true_and, List.all_eq_true]
      exact fun d mem => isBlank_of_isPadding (List.all_eq_true.1 all d mem)
    have skips : opensCall (c :: (body ++ rest)) = opensCall rest := by
      unfold opensCall
      rw [← List.cons_append, List.find?_append, List.find?_eq_none.2, Option.none_or]
      exact fun d mem => by simp [List.all_eq_true.1 all d mem]
    rw [skips, ih later]
    simp [callFollows, blank]
  | @other t ts blank first alone =>
    have one : callFollows (t :: ts) = (t.text == ['(']) := by simp [callFollows, blank]
    cases cs with
    | nil => rw [tokens] at here; cases here
    | cons c cs =>
      rw [tokens] at here
      obtain ⟨rfl, -⟩ := List.cons.inj here
      simp only [List.head?_cons, Option.any_some, Option.some.injEq] at first alone
      rw [one, opensCall, List.find?_cons, first]
      by_cases opens : c = '('
      · rw [alone opens, opens]
        rfl
      · simp [opens]

/-- A plain token leads, if it is no word of other characters. -/
theorem led_of_isPlain (here : tokens cs = t :: ts) (plain : t.isPlain = true) (blank : t.kind ≠ .blank)
    (word : t.kind = .word → t.text.head?.any isWordStart = true) : Led (t :: ts) := by
  obtain ⟨c, body, rest, text, rfl, reaches, -⟩ := reaches_of_tokens here plain
  rw [text] at word
  refine .other blank (by simp [text, not_isBlank_of_reaches reaches blank word]) fun opens => ?_
  obtain rfl : c = '(' := by simpa [text] using opens
  have alone := (reaches.symbol_of_mem (by decide) (by decide)).resolve_left fun point => absurd point.2 (by decide)
  rw [text, List.length_eq_zero_iff.1 alone.2]

theorem led_of_terms? (made : terms? ts = some terms) (here : tokens cs = ts) : Led ts := by
  induction ts generalizing cs terms with
  | nil => exact .nil
  | cons t ts ih =>
    have plain := isPlain_of_terms? made
    obtain ⟨c, body, rest, text, rfl, reaches, later⟩ := reaches_of_tokens here plain
    rcases terms?_cons made with ⟨blank, -, made⟩ | ⟨word, -, term, others, one, -⟩ | ⟨blank, word, -⟩
    · exact .blank plain blank (ih made later)
    · refine led_of_isPlain here plain (by simp [word]) fun _ => ?_
      have first := (isWordStart_of_term? one).1
      rw [text] at first ⊢
      exact first
    · exact led_of_isPlain here plain blank fun other => absurd other word

/-! ## Words -/

/-- A symbol of one character that begins no other one is a token, but a point may begin a number. -/
theorem symbol_of_tokens (here : tokens (c :: cs) = t :: ts) (plain : t.isPlain = true) (mem : [c] ∈ symbols)
    (alone : ∀ s ∈ symbols, s.head? = some c → s = [c]) : t.kind = .number ∧ c = '.' ∨ t = ⟨.symbol, [c]⟩ := by
  obtain ⟨d, body, rest, text, eq, reaches, -⟩ := reaches_of_tokens here plain
  obtain ⟨rfl, rfl⟩ := List.cons.inj eq
  rcases reaches.symbol_of_mem mem alone with number | ⟨kind, length⟩
  · exact .inl number
  · obtain ⟨_, _⟩ := t
    cases kind
    cases text
    rw [List.length_eq_zero_iff.1 length]
    exact .inr rfl

theorem cons_of_symbol (here : tokens (c :: cs) = ts) (made : terms? ts = some terms) (mem : [c] ∈ symbols)
    (alone : ∀ s ∈ symbols, s.head? = some c → s = [c]) :
    ∃ t others, ts = t :: others ∧ (t.kind = .number ∧ c = '.' ∨ t = ⟨.symbol, [c]⟩) := by
  cases ts with
  | nil => rw [tokens] at here; cases here
  | cons t ts => exact ⟨t, ts, rfl, symbol_of_tokens here (isPlain_of_terms? made) mem alone⟩

/-- A word goes on as far for the scanner as with the words after points for the engine. -/
theorem exists_dotted (here : tokens cs = ts) (ends : Ends Sql.isWordChar cs)
    (number : ts.head?.any (·.kind = .number) = false) (apart : numbersApart ts = true)
    (point : (dotted ts).2.head? ≠ some ⟨.symbol, ['.']⟩) (made : terms? (dotted ts).2 = some terms) :
    ∃ more, cs = (dotted ts).1 ++ more ∧ tokens more = (dotted ts).2 ∧ Ends isWordChar more
      ∧ numbersApart (dotted ts).2 = true := by
  fun_induction dotted ts generalizing cs with
  | case1 w rest ih =>
    obtain ⟨_, _, more, text, rfl, -, there⟩ := reaches_of_tokens here rfl
    obtain ⟨rfl, rfl⟩ := List.cons.inj text
    obtain ⟨c, body, last, rfl, rfl, reaches, later⟩ := reaches_of_tokens there rfl
    have ends : Ends Sql.isWordChar last := by
      generalize eq : body.length = n at reaches
      cases reaches with
      | word => exact (all_of_runLength eq.symm).2
    simp only [numbersApart, List.head?_cons, Option.any_some, Bool.and_eq_true, Bool.not_eq_true', decide_true,
      Bool.true_and] at apart
    obtain ⟨more, rfl, later, ends, apart⟩ := ih later ends apart.2.1.2 apart.2.2 point made
    exact ⟨more, by simp, later, ends, apart⟩
  | case2 ts =>
    refine ⟨cs, rfl, here, fun d next => ?_, apart⟩
    obtain ⟨more, rfl⟩ := List.head?_eq_some_iff.1 next
    refine Bool.eq_false_iff.2 fun goes => ?_
    have failed := ends d rfl
    simp only [isWordChar, Bool.or_eq_true, beq_iff_eq] at goes
    rcases goes with (letter | rfl) | rfl
    · rw [isWordChar_of_isAlphanumeric letter] at failed
      cases failed
    · exact absurd failed (by decide)
    · obtain ⟨t, ts, rfl, ⟨kind, -⟩ | rfl⟩ := cons_of_symbol here made (by decide) (by decide)
      · simp [kind] at number
      · exact point rfl

/-! ## Extractions -/

/-- The lexemes of a term, a field as the extraction of its path. -/
def Term.extracted : Term → List Lexeme
  | .lexeme l => [l]
  | .field path => extraction path.jsonPath

/-- The engine reads the text before a comma as it reads it alone. -/
def Separate (text : String) : Prop := ∀ rest, tokens (text.toList ++ ',' :: rest) = tokens text.toList ++ tokens (',' :: rest)

/-- The tokens of `json_extract(source, '…')`. -/
def extractionTokens (source path : String) : List Token :=
  ⟨.word, "json_extract".toList⟩ :: ⟨.symbol, ['(']⟩ :: (tokens source.toList
    ++ [⟨.symbol, [',']⟩, ⟨.blank, [' ']⟩, ⟨.string, '\'' :: (path.toList ++ ['\''])⟩, ⟨.symbol, [')']⟩])

theorem quoteLength?_of_not_mem {q : Char} (plain : q ∉ cs) : quoteLength? q (cs ++ [q]) = some (cs.length + 1) := by
  induction cs with
  | nil => simp [quoteLength?]
  | cons c cs ih =>
    rw [List.mem_cons, not_or] at plain
    rw [List.cons_append, quoteLength?_cons_of_ne (Ne.symm plain.1), ih plain.2]
    rfl

theorem undouble_of_not_mem {q : Char} (cs : List Char) (plain : q ∉ cs) : undouble q cs = cs := by
  match cs with
  | [] | [_] => rfl
  | c :: d :: rest =>
    rw [List.mem_cons, not_or] at plain
    rw [undouble, if_neg (by simp [Ne.symm plain.1]), undouble_of_not_mem (d :: rest) plain.2]

/-- The characters of a path in a text. -/
theorem mem_jsonPath {path : FieldPath} (mem : c ∈ path.jsonPath.toList) :
    c = '$' ∨ c = '.' ∨ c = '"' ∨ isSegmentChar c = true := by
  rw [FieldPath.jsonPath, String.toList_ofList, List.mem_cons, List.mem_flatMap] at mem
  rcases mem with rfl | ⟨s, segment, mem⟩
  · exact .inl rfl
  · simp only [List.cons_append, List.mem_cons, List.mem_append, List.not_mem_nil, or_false] at mem
    rcases mem with rfl | rfl | mem | rfl
    · exact .inr (.inl rfl)
    · exact .inr (.inr (.inl rfl))
    · exact .inr (.inr (.inr (List.all_eq_true.1 (path.plain s segment).2 c mem)))
    · exact .inr (.inr (.inl rfl))

theorem quote_not_mem_jsonPath (path : FieldPath) : '\'' ∉ path.jsonPath.toList := fun mem => by
  rcases mem_jsonPath mem with h | h | h | h <;> exact absurd h (by decide)

/-- Formed tokens of which none takes in what follows it. -/
def Stand (rest : List Char) : List Token → Prop
  | [] => True
  | t :: ts => t.IsFormed ∧ Ends t.takesIn (ts.flatMap Token.text ++ rest) ∧ Stand rest ts

theorem tokens_of_stand (h : Stand rest ts) : tokens (ts.flatMap Token.text ++ rest) = ts ++ tokens rest := by
  induction ts with
  | nil => rfl
  | cons t ts ih =>
    rw [List.flatMap_cons, List.append_assoc, tokens_of_stands (h.1.stands h.2.1), ih h.2.2]
    rfl

/-- Nothing goes on with a symbol of one character that begins no other token. -/
theorem takesIn_alone (d : Char) (alone : ∀ a ∈ symbols, a.head? = some c → a = [c])
    (plain : ['-', '/', '.'].contains c = false) : (Token.mk .symbol [c]).takesIn d = false := by
  have longer : lengthens [c] d = false := by
    refine List.any_eq_false.2 fun a mem => ?_
    rw [List.isPrefixOf_iff_prefix]
    rintro ⟨more, rfl⟩
    exact absurd (congrArg List.length (alone _ mem rfl)) (by simp)
  simp only [List.contains_cons, List.contains_nil, Bool.or_false, Bool.or_eq_false_iff, beq_eq_false_iff_ne] at plain
  simp [Token.takesIn, longer, plain]

/-- A path between quotes is a token. -/
theorem formed_literal (path : FieldPath) : (⟨.string, '\'' :: (path.jsonPath.toList ++ ['\''])⟩ : Token).IsFormed := by
  refine ⟨_, _, rfl, rfl, ?_⟩
  rw [quoteLength?_of_not_mem (quote_not_mem_jsonPath path), List.length_append]
  rfl

/-- The engine's tokens of an extraction. -/
theorem tokens_extractText (alone : Separate source) (path : FieldPath) (rest : List Char) :
    tokens ((extractText source path).toList ++ rest) = extractionTokens source path.jsonPath ++ tokens rest := by
  have text : (extractText source path).toList ++ rest = [⟨.word, "json_extract".toList⟩, ⟨.symbol, ['(']⟩].flatMap Token.text
      ++ (source.toList ++ ',' :: ([⟨.blank, [' ']⟩, ⟨.string, '\'' :: (path.jsonPath.toList ++ ['\''])⟩, ⟨.symbol, [')']⟩].flatMap
        Token.text ++ rest)) := by
    simp [extractText_eq, FieldPath.literal, String.toList_append]
  have opening : ∀ more, Stand more [⟨.word, "json_extract".toList⟩, ⟨.symbol, ['(']⟩] := fun more =>
    ⟨⟨_, _, rfl, by decide⟩, ends_cons rfl, ⟨_, _, rfl, by decide⟩, fun d _ => takesIn_alone d (by decide) (by decide), trivial⟩
  have closing : Stand rest [⟨.symbol, [',']⟩, ⟨.blank, [' ']⟩, ⟨.string, '\'' :: (path.jsonPath.toList ++ ['\''])⟩, ⟨.symbol, [')']⟩] := by
    exact ⟨⟨_, _, rfl, by decide⟩, ends_cons (by decide), ⟨_, _, rfl, by decide⟩, ends_cons rfl, formed_literal path, ends_cons rfl,
      ⟨_, _, rfl, by decide⟩, fun d _ => takesIn_alone d (by decide) (by decide), trivial⟩
  have closed : tokens (',' :: ([⟨.blank, [' ']⟩, ⟨.string, '\'' :: (path.jsonPath.toList ++ ['\''])⟩, ⟨.symbol, [')']⟩].flatMap
        Token.text ++ rest)) = [⟨.symbol, [',']⟩, ⟨.blank, [' ']⟩, ⟨.string, '\'' :: (path.jsonPath.toList ++ ['\''])⟩,
        ⟨.symbol, [')']⟩] ++ tokens rest := tokens_of_stand closing
  rw [text, tokens_of_stand (opening _), alone, closed]
  simp [extractionTokens]

/-- A text that is whole tokens by itself is so before a comma. -/
theorem separate_of_stand (text : ts.flatMap Token.text = source.toList) (alone : Stand [] ts)
    (stand : ∀ rest, Stand (',' :: rest) ts) : tokens source.toList = ts ∧ Separate source := by
  have whole : tokens source.toList = ts := by
    have eq := tokens_of_stand alone
    rwa [show tokens [] = [] by rw [tokens], List.append_nil, List.append_nil, text] at eq
  refine ⟨whole, fun rest => ?_⟩
  rw [whole, ← text, tokens_of_stand (stand rest)]

theorem tokens_newBody : tokens Check.newBody.toList = [⟨.word, "NEW".toList⟩, ⟨.symbol, ['.']⟩, ⟨.word, "data".toList⟩]
    ∧ Separate Check.newBody :=
  separate_of_stand rfl
    ⟨⟨_, _, rfl, by decide⟩, ends_cons rfl, ⟨_, _, rfl, by decide⟩, ends_cons (by decide), ⟨_, _, rfl, by decide⟩, nofun, trivial⟩
    fun _ => ⟨⟨_, _, rfl, by decide⟩, ends_cons rfl, ⟨_, _, rfl, by decide⟩, ends_cons (by decide), ⟨_, _, rfl, by decide⟩,
      ends_cons rfl, trivial⟩

theorem tokens_bodyColumn : tokens bodyColumn.toList = [⟨.word, "data".toList⟩] ∧ Separate bodyColumn :=
  separate_of_stand rfl ⟨⟨_, _, rfl, by decide⟩, nofun, trivial⟩ fun _ => ⟨⟨_, _, rfl, by decide⟩, ends_cons rfl, trivial⟩

theorem lexemesFrom_cons {l : Lexeme} (s : Numbering) (lexeme : t.lexeme? = some l) :
    lexemesFrom s (t :: ts) = (lexemesFrom s ts).map fun p => (l :: p.1, p.2) := by
  obtain ⟨kind, text⟩ := t
  cases kind with
  | blank | comment | blob | «variable» | illegal => cases lexeme
  | string | number | quotedName | word | symbol =>
    rw [lexemesFrom]
    simp only [lexeme]

theorem lexeme?_literal (path : FieldPath) :
    (⟨.string, '\'' :: (path.jsonPath.toList ++ ['\''])⟩ : Token).lexeme? = some (.string path.jsonPath) := by
  have inside : between ('\'' :: (path.jsonPath.toList ++ ['\''])) = path.jsonPath.toList := by simp [between]
  show some (Lexeme.string (String.ofList (undouble '\'' (between _)))) = _
  rw [inside, undouble_of_not_mem _ (quote_not_mem_jsonPath path), String.ofList_toList]

/-- The engine's lexemes of an extraction. -/
theorem lexemesFrom_extraction (s : Numbering) (path : FieldPath) (ts : List Token) :
    lexemesFrom s (extractionTokens Check.newBody path.jsonPath ++ ts)
      = (lexemesFrom s ts).map fun p => (extraction path.jsonPath ++ p.1, p.2) := by
  have blank : ∀ ts, lexemesFrom s (⟨.blank, [' ']⟩ :: ts) = lexemesFrom s ts := fun ts => by rw [lexemesFrom]
  simp only [extractionTokens, tokens_newBody.1, List.cons_append, List.nil_append]
  rw [lexemesFrom_cons s rfl, lexemesFrom_cons s rfl, lexemesFrom_cons s rfl, lexemesFrom_cons s rfl, lexemesFrom_cons s rfl,
    lexemesFrom_cons s rfl, blank, lexemesFrom_cons s (lexeme?_literal path), lexemesFrom_cons s rfl]
  simp only [Option.map_map]
  rfl

/-! ## The rewritten text -/

/-- No token goes on with a closing parenthesis. -/
theorem takesIn_parenthesis (formed : t.IsFormed) : t.takesIn ')' = false := by
  obtain ⟨kind, text⟩ := t
  obtain ⟨c, cs, rfl, formed⟩ := formed
  cases kind with
  | blank | string => rfl
  | quotedName =>
    rcases formed with ⟨quote, -⟩ | ⟨rfl, -⟩
    · rcases quote with rfl | rfl <;> rfl
    · rfl
  | number => rfl
  | word => simp [Token.takesIn, show Sql.isWordChar ')' = false by decide]
  | symbol =>
    have all : ∀ s ∈ symbols, (Token.mk .symbol s).takesIn ')' = false := by decide
    exact all _ formed
  | comment | blob | «variable» | illegal => exact formed.elim

theorem ends_parenthesis (formed : t.IsFormed) (close : rest.head? = some ')') : Ends t.takesIn rest := fun d next => by
  obtain rfl : ')' = d := Option.some.inj (close.symm.trans next)
  exact takesIn_parenthesis formed

/-- What the rewriting makes of a word that is a term: the word itself, or the extraction of its path. -/
theorem resolveWord_of_term? (source : String) {isCall : Bool} {w : List Char} {term : Term} (made : term? isCall w = some term) :
    (term = .lexeme (.word (String.ofList w)) ∧ '.' ∉ w ∧ resolveWord source isCall w = w)
    ∨ ∃ path, term = .field path ∧ resolveWord source isCall w = (extractText source path).toList := by
  unfold term? at made
  unfold resolveWord
  simp only at made ⊢
  split at made
  · cases made
  split at made
  · rename_i call
    split at made
    · cases made
    · rename_i plain
      exact .inl ⟨(Option.some.inj made).symm, by simpa using plain, by simp [call]⟩
  rename_i call
  split at made
  · rename_i keyword
    refine .inl ⟨(Option.some.inj made).symm, fun point => ?_, by rw [keyword, Bool.or_true, if_pos rfl]⟩
    have plain : ∀ k ∈ keywords, '.' ∉ k.toList := by decide
    refine plain _ (List.contains_iff_mem.1 keyword) ?_
    rw [foldCase, String.toList_ofList, String.toList_ofList]
    exact List.mem_map.2 ⟨'.', point, rfl⟩
  rename_i keyword
  split at made
  · cases made
  rename_i other
  simp only [Bool.or_eq_true, decide_eq_true_eq, not_or] at other
  cases parsed : FieldPath.parse (String.ofList w) with
  | error e =>
    rw [parsed] at made
    cases made
  | ok path =>
    rw [parsed] at made
    refine .inr ⟨path, (Option.some.inj made).symm, ?_⟩
    rw [if_neg (by simpa [call] using keyword), if_neg other.1, if_neg other.2]

theorem dotted_fst (ts : List Token) : (dotted ts).1 = [] ∨ '.' ∈ (dotted ts).1 := by
  unfold dotted
  split
  · exact .inr (by simp)
  · exact .inl rfl

/-- A token that stays is a token of the rewritten text. -/
theorem tokens_rewritten (formed : t.IsFormed) (ends : Ends t.takesIn cs) (close : rest.head? = some ')') :
    tokens (t.text ++ (rewritten source cs ++ rest)) = t :: tokens (rewritten source cs ++ rest) :=
  tokens_of_stands (formed.stands (ends_rewritten ends (ends_parenthesis formed close) (takesIn_words formed)))

/-- The engine reads the terms of a formula in its rewritten text, up to a parenthesis that closes it. -/
theorem lexemesFrom_rewritten (ts : List Token) {cs : List Char} {terms : List Term} (made : terms? ts = some terms)
    (apart : numbersApart ts = true) (here : tokens cs = ts) (s : Numbering) (close : rest.head? = some ')') :
    lexemesFrom s (tokens (rewritten Check.newBody cs ++ rest))
      = (lexemesFrom s (tokens rest)).map fun p => (terms.flatMap Term.extracted ++ p.1, p.2) := by
  match ts with
  | [] =>
    have empty : cs = [] := by
      cases cs with
      | nil => rfl
      | cons => rw [tokens] at here; cases here
    obtain rfl : [] = terms := by simpa [terms?] using made
    simp [empty]
  | t :: ts =>
    obtain ⟨c, body, more, text, rfl, reaches, later⟩ := reaches_of_tokens here (isPlain_of_terms? made)
    obtain ⟨kind, _⟩ := t
    subst text
    simp only [numbersApart, Bool.and_eq_true, Bool.not_eq_true'] at apart
    rcases terms?_cons made with ⟨blank, -, made'⟩ | ⟨word, alone, term, others, one, made', rfl⟩
        | ⟨blank, word, alone, l, others, lexeme, made', rfl⟩
    · obtain rfl : kind = .blank := blank
      obtain ⟨formed, ends⟩ := reaches.formed rfl (fun number => by cases number) fun symbol => by cases symbol
      have step := rewritten_text Check.newBody formed ends (fun word => by cases word) fun number => by cases number
      rw [← List.cons_append, step, List.append_assoc, tokens_rewritten formed ends close, lexemesFrom]
      exact lexemesFrom_rewritten ts made' apart.2 later s close
    · obtain rfl : kind = .word := word
      obtain ⟨formed, ends⟩ := reaches.formed rfl (fun number => by cases number) fun symbol => by cases symbol
      simp only [decide_true, Bool.true_and] at apart
      have point : (dotted ts).2.head? ≠ some ⟨.symbol, ['.']⟩ := fun point => by
        rw [point] at alone
        simp [collide] at alone
      obtain ⟨last, rfl, here', stops, apart'⟩ := exists_dotted later (ends.imp fun d goes => by simp [Token.takesIn, goes])
        apart.1.2 apart.2 point made'
      obtain ⟨first, all⟩ := isWordStart_of_term? one
      simp only [List.cons_append, List.head?_cons, Option.any_some, List.all_cons, Bool.and_eq_true] at first all
      rw [← List.append_assoc, rewritten_word first all.2 stops, (led_of_terms? made' here').opensCall_eq here', List.append_assoc]
      rcases resolveWord_of_term? Check.newBody one with ⟨rfl, plain, same⟩ | ⟨path, rfl, same⟩
      · -- a word without points stands in the text as it is
        have none_ : (dotted ts).1 = [] := (dotted_fst ts).resolve_right fun mem => plain (by simp [mem])
        rw [none_, List.nil_append] at ends
        rw [← List.cons_append, same, none_, List.append_nil, tokens_rewritten formed ends close, lexemesFrom_cons s rfl,
          lexemesFrom_rewritten _ made' apart' here' s close]
        simp [Option.map_map, Function.comp_def, Term.extracted]
      · rw [← List.cons_append, same, tokens_extractText tokens_newBody.2, lexemesFrom_extraction,
          lexemesFrom_rewritten _ made' apart' here' s close]
        simp [Option.map_map, Function.comp_def, Term.extracted]
    · have point : kind = .number → more.head? ≠ some '.' := fun number head => by
        subst number
        obtain ⟨xs, rfl⟩ := List.head?_eq_some_iff.1 head
        obtain ⟨u, us, rfl, ⟨other, -⟩ | rfl⟩ := cons_of_symbol later made' (by decide) (by decide)
        · simp [collide, other] at alone
        · simp [collide] at alone
      have star : kind = .symbol → c = '/' → body = [] → more.head? ≠ some '*' := fun symbol slash whole head => by
        subst symbol slash whole
        obtain ⟨xs, rfl⟩ := List.head?_eq_some_iff.1 head
        obtain ⟨u, us, rfl, ⟨-, other⟩ | rfl⟩ := cons_of_symbol later made' (by decide) (by decide)
        · cases other
        · simp [collide] at alone
      obtain ⟨formed, ends⟩ := reaches.formed rfl point star
      have step := rewritten_text Check.newBody formed ends word fun number => by
        have := apart.1.1
        simp only at number
        simpa [number] using this
      rw [← List.cons_append, step, List.append_assoc, tokens_rewritten formed ends close, lexemesFrom_cons s lexeme,
        lexemesFrom_rewritten ts made' apart.2 later s close]
      simp [Option.map_map, Function.comp_def, Term.extracted]
termination_by ts.length
decreasing_by
  all_goals
    have := length_dotted_le ts
    simp only [List.length_cons]
    omega

end Dossier.Raw
