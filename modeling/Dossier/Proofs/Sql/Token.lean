import Dossier.Proofs.Sql.Extent

/-!
# Where tokens end

A token stands before the rest of a text when the engine takes it there and takes no more (`Token.Stands`). A plain token
that the engine takes is formed as its kind asks, and the next character does not go on with it (`Reaches.formed`); before
every rest that does not, a formed token stands (`Token.IsFormed.stands`). So a text can be changed piece by piece, and its
tokens change with it.
-/

namespace Dossier.Sql

open Text

variable {c : Char} {cs rest : List Char} {t : Token} {n : Nat}

/-! ## Tokens -/

/-- The characters that begin a word. -/
def isWordFirst (c : Char) : Bool := isWordChar c && !(c.isDigit || c == '$' || c == '\ufeff')

/-- A token that is formed as its kind asks. -/
def Token.IsFormed (t : Token) : Prop :=
  ∃ c cs, t.text = c :: cs ∧ match t.kind with
    | .blank => isSqlBlank c = true ∧ cs.all Value.isPadding = true
    | .string => c = '\'' ∧ quoteLength? c cs = some cs.length
    | .quotedName => ((c = '"' ∨ c = '\x60') ∧ quoteLength? c cs = some cs.length)
        ∨ (c = '[' ∧ bracketLength? cs = some cs.length)
    | .number => (c.isDigit = true ∨ (c = '.' ∧ cs.head?.any Char.isDigit = true)) ∧ IsNumberText (c :: cs)
    | .word => isWordFirst c = true ∧ cs.all isWordChar = true
    | .symbol => c :: cs ∈ symbols
    | _ => False

/-- The characters that a token goes on with, or that make another token of it. -/
def Token.takesIn (t : Token) (c : Char) : Bool :=
  match t.kind with
  | .blank => Value.isPadding c
  | .string => c == '\''
  | .quotedName => t.text.head? == some c && c != '['
  | .number => goesOn c
  | .word => isWordChar c || ((t.text == ['x'] || t.text == ['X']) && c == '\'')
  | .symbol => lengthens t.text c || (t.text == ['-'] && c == '-') || (t.text == ['/'] && c == '*')
      || (t.text == ['.'] && c.isDigit)
  | _ => true

/-- The engine takes the token at the front of a text and leaves the rest. -/
def Token.Stands (t : Token) (rest : List Char) : Prop :=
  ∃ c cs, t.text = c :: cs ∧ extent c (cs ++ rest) = (t.kind, cs.length)

theorem tokens_of_stands (h : t.Stands rest) : tokens (t.text ++ rest) = t :: tokens rest := by
  obtain ⟨kind, text⟩ := t
  obtain ⟨c, cs, rfl, eq⟩ := h
  simp only at eq
  rw [List.cons_append, tokens, eq, List.take_left, List.drop_left]

theorem sqlBlank_cases (h : isSqlBlank c = true) : c = ' ' ∨ c = '\t' ∨ c = '\n' ∨ c = '\x0c' ∨ c = '\r' := by
  have same : ∀ d : Char, c.toNat = d.toNat → c = d := fun d eq => Char.ext (UInt32.toNat_inj.1 eq)
  simp only [isSqlBlank, Bool.or_eq_true, decide_eq_true_eq] at h
  rcases h with (((h | h) | h) | h) | h
  · exact .inl (same _ h)
  · exact .inr (.inl (same _ h))
  · exact .inr (.inr (.inl (same _ h)))
  · exact .inr (.inr (.inr (.inl (same _ h))))
  · exact .inr (.inr (.inr (.inr (same _ h))))

theorem isSqlBlank_of_isWordChar (h : isWordChar c = true) : isSqlBlank c = false := by
  cases blank : isSqlBlank c with
  | false => rfl
  | true => rcases sqlBlank_cases blank with rfl | rfl | rfl | rfl | rfl <;> exact absurd h (by decide)

/-- What begins with a character of a name is a number, a blob or a word. -/
theorem extent_of_isWordChar (word : isWordChar c = true) (dollar : c ≠ '$') (mark : c ≠ '\ufeff') :
    extent c cs = if c.isDigit then numberExtent c cs
      else if (c = 'x' || c = 'X') && cs.head? = some '\'' then blobExtent cs
      else (.word, runLength isWordChar cs) := by
  have ne : ∀ d, isWordChar d = false → c ≠ d := by
    rintro d other rfl
    rw [word] at other
    cases other
  simp only [extent, isSqlBlank_of_isWordChar word, mark, dollar, word, ne '-' (by decide), ne '/' (by decide),
    ne '\'' (by decide), ne '"' (by decide), ne '\x60' (by decide), ne '[' (by decide), ne '?' (by decide),
    ne '@' (by decide), ne ':' (by decide), ne '#' (by decide), ne '.' (by decide), Bool.false_eq_true, if_false, if_true,
    decide_false, Bool.false_and, Bool.or_false]

/-- What begins with a point and a digit is a number. -/
theorem extent_point (digit : cs.head?.any Char.isDigit = true) : extent '.' cs = numberExtent '.' cs := by
  rw [extent]
  simp [digit, show isSqlBlank '.' = false by decide]

theorem extent_of_isDigit (digit : c.isDigit = true) : extent c cs = numberExtent c cs := by
  rw [extent_of_isWordChar (isWordChar_of_isDigit digit) (by rintro rfl; cases digit) (by rintro rfl; cases digit), if_pos digit]

/-- What begins with the first character of a symbol, and is neither comment nor number, is a symbol. -/
theorem extent_symbol {s : List Char} (mem : s ∈ symbols) (first : s.head? = some c)
    (dashes : c = '-' → cs.head? ≠ some '-') (star : c = '/' → cs.head? ≠ some '*' ∨ cs.length ≤ 1)
    (point : c = '.' → cs.head?.any Char.isDigit = false) {found : List Char}
    (find : symbols.find? (·.isPrefixOf (c :: cs)) = some found) : extent c cs = (.symbol, found.length - 1) := by
  have plain : ∀ s ∈ symbols, s.head?.all (fun c => !(isSqlBlank c || isWordChar c || c == '\ufeff' || c == '\'' || c == '"'
      || c == '\x60' || c == '[' || c == '?' || c == '$' || c == '@' || c == ':' || c == '#' || c.isDigit || c == 'x'
      || c == 'X')) = true := by decide
  have facts := plain s mem
  rw [first] at facts
  simp only [Option.all_some, Bool.not_eq_true', Bool.or_eq_false_iff, beq_eq_false_iff_ne] at facts
  obtain ⟨⟨⟨⟨⟨⟨⟨⟨⟨⟨⟨⟨⟨⟨blank, word⟩, mark⟩, quote⟩, double⟩, back⟩, bracket⟩, question⟩, dollar⟩, at_⟩, colon⟩, hash⟩, digit⟩,
    x⟩, X⟩ := facts
  have comment : (decide (c = '-') && decide (cs.head? = some '-')) = false := by simpa using dashes
  have comment' : (decide (c = '/') && decide (cs.head? = some '*') && decide (1 < cs.length)) = false := by
    by_cases slash : c = '/'
    · rcases star slash with apart | short
      · simp [apart]
      · simp [Nat.not_lt.2 short]
    · simp [slash]
  have number : (decide (c = '.') && cs.head?.any Char.isDigit) = false := by
    by_cases dot : c = '.'
    · simp [point dot]
    · simp [dot]
  simp only [extent, blank, mark, comment, comment', quote, double, back, bracket, question, dollar, at_, colon, hash, digit,
    number, x, X, word, find, Bool.false_eq_true, if_false, decide_false, Bool.false_and, Bool.or_false]

/-- A formed token stands before what it does not go on with. -/
theorem Token.IsFormed.stands (formed : t.IsFormed) (ends : Ends t.takesIn rest) : t.Stands rest := by
  obtain ⟨kind, text⟩ := t
  obtain ⟨c, cs, rfl, formed⟩ := formed
  refine ⟨c, cs, rfl, ?_⟩
  cases kind with
  | blank => rw [extent, if_pos formed.1, runLength_eq_length formed.2 ends]
  | string =>
    obtain ⟨rfl, closed⟩ := formed
    have alone : quoteLength? '\'' (cs ++ []) = some cs.length := by simpa using closed
    have closed := quoteLength?_congr cs alone ends
    show quotedExtent .string (quoteLength? '\'' (cs ++ rest)) (cs ++ rest) = _
    rw [closed]
    rfl
  | quotedName =>
    rcases formed with ⟨quote, closed⟩ | ⟨rfl, closed⟩
    · have alone : quoteLength? c (cs ++ []) = some cs.length := by simpa using closed
      have closed : quoteLength? c (cs ++ rest) = some cs.length := quoteLength?_congr cs alone (ends.imp fun d same => by
        rw [beq_iff_eq] at same
        subst same
        rcases quote with rfl | rfl <;> simp [Token.takesIn])
      rcases quote with rfl | rfl
      · show quotedExtent .quotedName (quoteLength? '"' (cs ++ rest)) (cs ++ rest) = _
        rw [closed]
        rfl
      · show quotedExtent .quotedName (quoteLength? '\x60' (cs ++ rest)) (cs ++ rest) = _
        rw [closed]
        rfl
    · show quotedExtent .quotedName (bracketLength? (cs ++ rest)) (cs ++ rest) = _
      have alone : bracketLength? (cs ++ []) = some cs.length := by simpa using closed
      rw [bracketLength?_congr alone]
      rfl
  | number =>
    obtain ⟨first, number⟩ := formed
    have reached : numberExtent c (cs ++ rest) = (.number, cs.length) := by
      have length := number.length_eq ends
      rw [List.cons_append, List.length_cons] at length
      unfold numberExtent
      simp only [length, Nat.add_sub_cancel, List.drop_left]
      rw [runLength_of_ends (ends.imp fun d word => by simp [Token.takesIn, goesOn, word])]
      rfl
    rcases first with digit | ⟨rfl, digit⟩
    · rw [extent_of_isDigit digit, reached]
    · rw [extent_point, reached]
      cases cs with
      | nil => cases digit
      | cons d more => exact digit
  | word =>
    obtain ⟨first, all⟩ := formed
    simp only [isWordFirst, Bool.and_eq_true, Bool.not_eq_true', Bool.or_eq_false_iff, beq_eq_false_iff_ne] at first
    obtain ⟨word, ⟨digit, dollar⟩, mark⟩ := first
    rw [extent_of_isWordChar word dollar mark, digit, if_neg Bool.false_ne_true, if_neg ?_, runLength_eq_length all ?_]
    · exact ends.imp fun d word => by simp [Token.takesIn, word]
    · simp only [Bool.and_eq_true, Bool.or_eq_true, decide_eq_true_eq, not_and]
      intro x quote
      cases cs with
      | nil =>
        have failed := ends '\'' quote
        rcases x with rfl | rfl <;> simp [Token.takesIn] at failed
      | cons d more =>
        cases quote
        simp [isWordChar] at all
  | symbol =>
    have heads : ∀ s ∈ symbols, s.take 2 ≠ ['-', '-'] ∧ s.take 2 ≠ ['/', '*'] ∧ (s.head? = some '.' → s = ['.']) := by decide
    obtain ⟨dashes, star, point⟩ := heads _ formed
    have found := find?_symbols formed (ends.imp fun d longer => by simp [Token.takesIn, longer])
    refine extent_symbol formed rfl ?_ ?_ ?_ found
    · rintro rfl next
      cases cs with
      | nil => exact absurd (ends '-' next) (by simp [Token.takesIn])
      | cons d more => cases next; exact dashes rfl
    · rintro rfl
      refine .inl fun next => ?_
      cases cs with
      | nil => exact absurd (ends '*' next) (by simp [Token.takesIn])
      | cons d more => cases next; exact star rfl
    · rintro rfl
      cases point rfl
      cases rest with
      | nil => rfl
      | cons d more =>
        have failed := ends d rfl
        simp only [Token.takesIn, Bool.or_eq_false_iff] at failed
        simpa using failed.2
  | comment | blob | «variable» | illegal => exact formed.elim

/-! ## Tokens of a text -/

/-- Tokens whose meaning is part of an expression, and blanks. -/
def Token.isPlain (t : Token) : Bool :=
  match t.kind with
  | .blank => t.text != ['\ufeff']
  | .string | .number | .quotedName | .word | .symbol => true
  | .comment | .blob | .variable | .illegal => false

/-- Why the engine takes a plain token where `c` begins it, and how far it reaches. -/
inductive Reaches (c : Char) (cs : List Char) : TokenKind → Nat → Prop
  | blank (first : isSqlBlank c = true) : Reaches c cs .blank (runLength Value.isPadding cs)
  | string {n : Nat} (first : c = '\'') (closed : quoteLength? c cs = some n) : Reaches c cs .string n
  | quotedName {n : Nat} (first : c = '"' ∨ c = '\x60') (closed : quoteLength? c cs = some n) : Reaches c cs .quotedName n
  | bracket {n : Nat} (first : c = '[') (closed : bracketLength? cs = some n) : Reaches c cs .quotedName n
  | number {n : Nat} (first : c.isDigit = true ∨ (c = '.' ∧ cs.head?.any Char.isDigit = true))
    (reached : numberExtent c cs = (.number, n)) : Reaches c cs .number n
  | word (first : isWordFirst c = true) (blob : c = 'x' ∨ c = 'X' → cs.head? ≠ some '\'') :
    Reaches c cs .word (runLength isWordChar cs)
  | symbol {s : List Char} (found : symbols.find? (·.isPrefixOf (c :: cs)) = some s)
    (dashes : c = '-' → cs.head? ≠ some '-') (point : c = '.' → cs.head?.any Char.isDigit = false) :
    Reaches c cs .symbol (s.length - 1)

theorem quotedExtent_eq {k kind : TokenKind} {length? : Option Nat} (legal : kind ≠ .illegal)
    (eq : quotedExtent k length? cs = (kind, n)) : k = kind ∧ length? = some n := by
  unfold quotedExtent at eq
  split at eq
  · exact ⟨(Prod.mk.inj eq).1, congrArg some (Prod.mk.inj eq).2⟩
  · exact absurd (Prod.mk.inj eq).1.symm legal

/-- Each plain token is taken for one reason. -/
theorem reaches_of_extent {kind : TokenKind} (eq : extent c cs = (kind, n))
    (plain : (⟨kind, c :: cs.take n⟩ : Token).isPlain = true) : Reaches c cs kind n := by
  have legal : kind ≠ .illegal := by rintro rfl; cases plain
  rw [extent] at eq
  by_cases blank : isSqlBlank c = true
  · rw [if_pos blank] at eq
    obtain ⟨rfl, rfl⟩ := Prod.mk.inj eq
    exact .blank blank
  rw [if_neg blank] at eq
  by_cases mark : c = '\ufeff'
  · rw [if_pos mark] at eq
    obtain ⟨rfl, rfl⟩ := Prod.mk.inj eq
    simp [Token.isPlain, mark] at plain
  rw [if_neg mark] at eq
  by_cases dashes : (decide (c = '-') && decide (cs.head? = some '-')) = true
  · rw [if_pos dashes] at eq
    obtain ⟨rfl, -⟩ := Prod.mk.inj eq
    cases plain
  rw [if_neg dashes] at eq
  by_cases comment : (decide (c = '/') && decide (cs.head? = some '*') && decide (1 < cs.length)) = true
  · rw [if_pos comment] at eq
    obtain ⟨rfl, -⟩ := Prod.mk.inj eq
    cases plain
  rw [if_neg comment] at eq
  by_cases quote : c = '\''
  · rw [if_pos quote] at eq
    obtain ⟨rfl, closed⟩ := quotedExtent_eq legal eq
    exact .string quote closed
  rw [if_neg quote] at eq
  by_cases double : (decide (c = '"') || decide (c = '\x60')) = true
  · rw [if_pos double] at eq
    obtain ⟨rfl, closed⟩ := quotedExtent_eq legal eq
    exact .quotedName (by simpa using double) closed
  rw [if_neg double] at eq
  by_cases bracket : c = '['
  · rw [if_pos bracket] at eq
    obtain ⟨rfl, closed⟩ := quotedExtent_eq legal eq
    exact .bracket bracket closed
  rw [if_neg bracket] at eq
  by_cases question : c = '?'
  · rw [if_pos question] at eq
    obtain ⟨rfl, -⟩ := Prod.mk.inj eq
    cases plain
  rw [if_neg question] at eq
  by_cases name : (decide (c = '$') || decide (c = '@') || decide (c = ':') || decide (c = '#')) = true
  · rw [if_pos name] at eq
    obtain ⟨kind_, -⟩ := Prod.mk.inj eq
    split at kind_ <;> cases kind_ <;> cases plain
  rw [if_neg name] at eq
  by_cases number : (c.isDigit || (decide (c = '.') && cs.head?.any Char.isDigit)) = true
  · rw [if_pos number] at eq
    obtain rfl : kind = .number := by
      unfold numberExtent at eq
      simp only at eq
      split at eq
      · exact (Prod.mk.inj eq).1.symm
      · exact absurd (Prod.mk.inj eq).1.symm legal
    exact .number (by simpa using number) eq
  rw [if_neg number] at eq
  simp only [Bool.or_eq_true, decide_eq_true_eq, not_or, Bool.not_eq_true, Bool.and_eq_true, not_and] at number name dashes
  by_cases blob : ((decide (c = 'x') || decide (c = 'X')) && decide (cs.head? = some '\'')) = true
  · rw [if_pos blob] at eq
    unfold blobExtent at eq
    simp only at eq
    split at eq <;> obtain ⟨rfl, -⟩ := Prod.mk.inj eq <;> cases plain
  rw [if_neg blob] at eq
  by_cases word : isWordChar c = true
  · rw [if_pos word] at eq
    obtain ⟨rfl, rfl⟩ := Prod.mk.inj eq
    exact .word (by simp [isWordFirst, word, number.1, name, mark]) (by simpa using blob)
  rw [if_neg word] at eq
  split at eq
  · rename_i s found
    obtain ⟨rfl, rfl⟩ := Prod.mk.inj eq
    exact .symbol found dashes number.2
  · exact absurd (Prod.mk.inj eq).1.symm legal

/-- A token that reaches over the first part of a text is formed, and the rest does not go on with it. -/
theorem Reaches.formed {kind : TokenKind} (h : Reaches c (cs ++ rest) kind n) (length : n = cs.length)
    (point : kind = .number → rest.head? ≠ some '.') (star : kind = .symbol → c = '/' → cs = [] → rest.head? ≠ some '*') :
    (⟨kind, c :: cs⟩ : Token).IsFormed ∧ Ends (⟨kind, c :: cs⟩ : Token).takesIn rest := by
  cases h with
  | blank first =>
    obtain ⟨all, ends⟩ := all_of_runLength length
    exact ⟨⟨c, cs, rfl, first, all⟩, ends⟩
  | string first closed =>
    subst first length
    have alone : quoteLength? '\'' (cs ++ []) = some cs.length := quoteLength?_congr cs closed fun _ next => by cases next
    exact ⟨⟨_, cs, rfl, rfl, by simpa using alone⟩, (quoteLength?_eq_length_iff.1 closed).2⟩
  | quotedName first closed =>
    subst length
    refine ⟨⟨c, cs, rfl, .inl ⟨first, ?_⟩⟩, (quoteLength?_eq_length_iff.1 closed).2.imp fun d same => ?_⟩
    · have alone : quoteLength? c (cs ++ []) = some cs.length := quoteLength?_congr cs closed fun _ next => by cases next
      simpa using alone
    · simp only [Token.takesIn, List.head?_cons, Bool.and_eq_true, beq_iff_eq, Option.some.injEq] at same
      rw [same.1]
      exact beq_self_eq_true d
  | bracket first closed =>
    subst length first
    refine ⟨⟨_, cs, rfl, .inr ⟨rfl, ?_⟩⟩, fun d _ => ?_⟩
    · have alone : bracketLength? (cs ++ []) = some cs.length := bracketLength?_congr closed
      simpa using alone
    · simp only [Token.takesIn, List.head?_cons, Bool.and_eq_false_iff, beq_eq_false_iff_ne, bne_eq_false_iff_eq]
      exact Decidable.or_iff_not_imp_right.2 fun ne same => ne (Option.some.inj same).symm
  | number first reached =>
    subst length
    obtain ⟨text, ends⟩ := numberExtent_eq first reached
    have inside : (cs ++ rest).head?.any Char.isDigit = true → cs.head?.any Char.isDigit = true := by
      intro digit
      cases cs with
      | nil =>
        cases rest with
        | nil => exact digit
        | cons d more =>
          have failed := ends d rfl
          rw [isWordChar_of_isDigit digit] at failed
          cases failed
      | cons d more => exact digit
    refine ⟨⟨c, cs, rfl, first.imp_right (And.imp_right inside), text⟩, fun d next => ?_⟩
    have apart : d ≠ '.' := fun same => point rfl (same ▸ next)
    simp [Token.takesIn, goesOn, ends d next, apart]
  | word first blob =>
    obtain ⟨all, ends⟩ := all_of_runLength length
    refine ⟨⟨c, cs, rfl, first, all⟩, fun d next => ?_⟩
    cases quoted : d == '\'' with
    | false => simp [Token.takesIn, ends d next, quoted]
    | true =>
      rw [beq_iff_eq] at quoted
      subst quoted
      cases cs with
      | nil =>
        have apart : ¬ (c = 'x' ∨ c = 'X') := fun x => blob x next
        simpa [Token.takesIn, ends _ next] using apart
      | cons e more => simp [Token.takesIn, ends _ next]
  | symbol found dashes dot =>
    rename_i s
    have nonempty : ∀ s ∈ symbols, s ≠ [] := by decide
    have whole : s = c :: cs := by
      have passes : s.isPrefixOf (c :: cs ++ rest) = true := by simpa using List.find?_some found
      have here := List.isPrefixOf_iff_prefix.1 passes
      have positive := List.length_pos_iff.2 (nonempty s (List.mem_of_find?_eq_some found))
      refine (List.prefix_of_prefix_length_le here (List.prefix_append (c :: cs) rest) ?_).eq_of_length ?_
      all_goals
        simp only [List.length_cons]
        omega
    subst whole
    refine ⟨⟨c, cs, rfl, List.mem_of_find?_eq_some found⟩, fun d next => ?_⟩
    have longer := ends_of_find?_symbols (s := c :: cs) found d next
    have alone : cs = [] → (cs ++ rest).head? = some d := by
      rintro rfl
      exact next
    refine Bool.eq_false_iff.2 fun taken => ?_
    simp only [Token.takesIn, longer, Bool.false_or, Bool.or_eq_true, Bool.and_eq_true, beq_iff_eq, List.cons.injEq] at taken
    rcases taken with (⟨⟨first, last⟩, same⟩ | ⟨⟨first, last⟩, same⟩) | ⟨⟨first, last⟩, digit⟩
    · exact dashes first (same ▸ alone last)
    · exact star rfl first last (same ▸ next)
    · have failed := dot first
      rw [alone last] at failed
      exact Bool.false_ne_true (failed.symm.trans digit)

/-- A symbol of one character that begins no other one is a token by itself, but a point may begin a number. -/
theorem Reaches.symbol_of_mem {kind : TokenKind} (h : Reaches c cs kind n) (mem : [c] ∈ symbols)
    (alone : ∀ s ∈ symbols, s.head? = some c → s = [c]) : (kind = .number ∧ c = '.') ∨ (kind = .symbol ∧ n = 0) := by
  have plain : ∀ s ∈ symbols, s.head?.all (fun c => !(isSqlBlank c || isWordChar c || c == '\'' || c == '"' || c == '\x60'
      || c == '[')) = true := by decide
  have facts := plain _ mem
  simp only [List.head?_cons, Option.all_some, Bool.not_eq_true', Bool.or_eq_false_iff, beq_eq_false_iff_ne] at facts
  obtain ⟨⟨⟨⟨⟨blank, word⟩, quote⟩, double⟩, back⟩, bracket⟩ := facts
  cases h with
  | blank first => rw [blank] at first; cases first
  | string first => exact absurd first quote
  | quotedName first => exact first.elim (absurd · double) (absurd · back)
  | bracket first => exact absurd first bracket
  | number first =>
    rcases first with digit | ⟨point, -⟩
    · rw [isWordChar_of_isDigit digit] at word
      cases word
    · exact .inl ⟨rfl, point⟩
  | word first =>
    rw [isWordFirst, word] at first
    cases first
  | @symbol s found =>
    obtain ⟨mem, first⟩ := mem_symbols_of_find? found
    obtain rfl := alone s mem first
    exact .inr ⟨rfl, rfl⟩

/-- No token reaches past the end. -/
theorem Reaches.le {kind : TokenKind} (h : Reaches c cs kind n) : n ≤ cs.length := by
  cases h with
  | blank | word => exact runLength_le _ _
  | string _ closed | quotedName _ closed => exact quoteLength?_le cs closed
  | bracket _ closed =>
    unfold bracketLength? at closed
    simp only at closed
    split at closed <;> cases closed
    omega
  | number first reached =>
    unfold numberExtent at reached
    simp only at reached
    have := numberLength_le (c :: cs)
    split at reached <;> cases reached
    simp only [List.length_cons] at this
    omega
  | @symbol s found =>
    have passes : s.isPrefixOf (c :: cs) = true := by simpa using List.find?_some found
    have := (List.isPrefixOf_iff_prefix.1 passes).length_le
    simp only [List.length_cons] at this
    omega

/-- A plain token at the front of a text stands before what follows it. -/
theorem reaches_of_tokens {ts : List Token} (h : tokens cs = t :: ts) (plain : t.isPlain = true) :
    ∃ c body rest, t.text = c :: body ∧ cs = c :: (body ++ rest) ∧ Reaches c (body ++ rest) t.kind body.length
      ∧ tokens rest = ts := by
  cases cs with
  | nil => rw [tokens] at h; cases h
  | cons c cs =>
    rw [tokens] at h
    obtain ⟨rfl, rfl⟩ := List.cons.inj h
    have reaches := reaches_of_extent (Prod.eta (extent c cs)).symm plain
    refine ⟨c, _, _, rfl, by rw [List.take_append_drop], ?_, rfl⟩
    rw [List.take_append_drop, List.length_take, Nat.min_eq_left reaches.le]
    exact reaches

end Dossier.Sql
