import Dossier.Proofs.Raw.Repeating

/-!
# What the rewriting keeps

The scanner of fragments is not the lexer of the engine. Where it takes tokens as the engine does (`aligned`), the rewriting
changes bare names and nothing else (`rewrites_resolve`): literals, quoted names and placeholders come out as they are and in
their order, and a name that changes is no keyword, no function and no column.
-/

namespace Dossier

open Text Sql

/-- Literals, quoted names and placeholders. -/
def Sql.Token.isLiteral (t : Token) : Bool :=
  match t.kind with
  | .string | .blob | .number | .quotedName | .variable => true
  | .blank | .comment | .word | .symbol | .illegal => false

namespace Raw

variable {source fragment : String} {c : Char} {cs name rest rest' : List Char} {t u : Token} {ts us : List Token}

/-! ## Names -/

/-- A bare name: a word, and the words that follow it after points. -/
structure BareName where
  head : List Char
  members : List (List Char)

/-- The words of a name after the first, each with its point. -/
def memberTokens (members : List (List Char)) : List Token := members.flatMap fun w => [⟨.symbol, ['.']⟩, ⟨.word, w⟩]

namespace BareName

/-- The name as it is written. -/
def text (n : BareName) : List Char := n.head ++ (memberTokens n.members).flatMap Token.text

/-- The tokens of the name. -/
def tokens (n : BareName) : List Token := ⟨.word, n.head⟩ :: memberTokens n.members

/-- The name is that of a field before what follows it: no keyword, no function, no column and no row of a trigger. -/
structure IsField (n : BareName) (after : List Token) : Prop where
  keyword : keywords.contains (foldCase (String.ofList n.text)) = false
  call : callFollows after = false
  column : columnHeads.contains (foldCase (String.ofList n.head)) = false

end BareName

/-- No member of a name stands at the front. -/
def IsWhole (ts : List Token) : Prop := ∀ w rest, ts ≠ ⟨.symbol, ['.']⟩ :: ⟨.word, w⟩ :: rest

/-- The tokens that stand for a name: the column of the identifier, or the extraction of a path from the source. -/
inductive Replaces (source : String) : List Char → List Token → Prop
  | identifier : Replaces source "_id".toList [⟨.word, "id".toList⟩]
  | field (path : FieldPath) : Replaces source path.text.toList (Sql.tokens (extractText source path).toList)

/-- Tokens of which only names of fields have changed. -/
inductive Rewrites (source : String) : List Token → List Token → Prop
  | nil : Rewrites source [] []
  | keep {t : Token} {ts us : List Token} (other : t.kind ≠ .word) (later : Rewrites source ts us) :
    Rewrites source (t :: ts) (t :: us)
  | keepName (n : BareName) {ts us : List Token} (whole : IsWhole ts) (later : Rewrites source ts us) :
    Rewrites source (n.tokens ++ ts) (n.tokens ++ us)
  | replace (n : BareName) {ts us new : List Token} (whole : IsWhole ts) (field : n.IsField ts) (new_ : Replaces source n.text new)
    (later : Rewrites source ts us) : Rewrites source (n.tokens ++ ts) (new ++ us)

theorem exists_members (ts : List Token) : ∃ members rest, ts = memberTokens members ++ rest ∧ IsWhole rest := by
  fun_induction dotted ts with
  | case1 w rest ih =>
    obtain ⟨members, after, eq, whole⟩ := ih
    exact ⟨w :: members, after, by rw [eq]; rfl, whole⟩
  | case2 ts other => exact ⟨[], ts, rfl, other⟩

theorem filter_tokens (n : BareName) : n.tokens.filter Token.isLiteral = [] := by
  have members : ∀ members, (memberTokens members).filter Token.isLiteral = [] := by
    intro members
    induction members with
    | nil => rfl
    | cons w rest ih => exact ih
  exact members n.members

/-- Literals, quoted names and placeholders stay, in their order. -/
theorem Rewrites.sublist (h : Rewrites source ts us) : (ts.filter Token.isLiteral).Sublist (us.filter Token.isLiteral) := by
  induction h with
  | nil => exact .refl _
  | @keep t _ _ other _ ih =>
    rw [List.filter_cons, List.filter_cons]
    split
    · exact ih.cons_cons t
    · exact ih
  | keepName n _ _ ih =>
    rw [List.filter_append, List.filter_append, filter_tokens]
    exact ih
  | replace n _ _ _ _ ih =>
    rw [List.filter_append, List.filter_append, filter_tokens, List.nil_append]
    exact ih.trans (List.sublist_append_right ..)

/-- What is left alone is rewritten to itself. -/
theorem Rewrites.refl (source : String) (ts : List Token) : Rewrites source ts ts := by
  match ts with
  | [] => exact .nil
  | ⟨kind, w⟩ :: ts =>
    by_cases word : kind = .word
    · subst word
      obtain ⟨members, rest, eq, whole⟩ := exists_members ts
      have shorter : rest.length ≤ ts.length := by
        rw [eq, List.length_append]
        omega
      rw [eq]
      exact .keepName ⟨w, members⟩ whole (refl source rest)
    · exact .keep word (refl source ts)
termination_by ts.length
decreasing_by all_goals (simp only [List.length_cons]; omega)

/-! ## Tokens that both take alike -/

/-- The scanner takes the token as the engine does: numbers without separators, words of letters, digits and `_`, and
placeholders that are named so. -/
def isShared (t : Token) : Bool :=
  match t.kind with
  | .blank => t.text != ['\ufeff']
  | .string | .quotedName | .symbol => true
  | .number => !t.text.contains '_'
  | .word => t.text.head?.any isWordStart && t.text.all isNameChar
  | .variable => t.text.head?.any isPlaceholderStart && t.text.tail.all isNameChar
  | .comment | .blob | .illegal => false

/-- Words and points: what a word of the scanner is made of. -/
def isWordPart (t : Token) : Bool := t.kind = .word || t = ⟨.symbol, ['.']⟩

/-- Neighbours that the scanner does not keep apart: a number that a word, a point or a number runs into, a point after a
number, two placeholders, and what would begin a comment. -/
def clash (t u : Token) : Bool :=
  ((isWordPart t || t.kind = .number) && u.kind = .number) || (t.kind = .number && u = ⟨.symbol, ['.']⟩)
    || (t.kind = .variable && u.kind = .variable) || (t = ⟨.symbol, ['/']⟩ && u = ⟨.symbol, ['*']⟩)

/-- A word with a point after it. -/
def isPointed : List Token → Bool
  | t :: u :: _ => t.kind = .word && u = ⟨.symbol, ['.']⟩
  | _ => false

/-- The scanner takes the tokens as the engine does. No placeholder runs into a word with a point after it. -/
def aligned : List Token → Bool
  | [] => true
  | t :: rest => isShared t && !rest.head?.any (clash t) && !(t.kind = .variable && isPointed rest) && aligned rest

/-! ## Placeholders -/

theorem ends_congr {p : Char → Bool} (ends : Ends p rest) (same : rest'.head? = rest.head?) : Ends p rest' :=
  fun d first => ends d (same ▸ first)

theorem variableLength_cons {named : Bool} (word : Sql.isWordChar c = true) :
    variableLength named (c :: cs) = ((variableLength true cs).1 + 1, (variableLength true cs).2) := by
  rw [variableLength, word]
  · rfl
  · rintro rest rfl
    exact absurd word (by decide)

/-- The name of a placeholder ends before what is no part of it. -/
theorem variableLength_of_all {named : Bool} (all : name.all Sql.isWordChar = true) (ends : Ends Sql.isWordChar rest)
    (parenthesis : rest.head? ≠ some '(') (colon : rest.head? ≠ some ':') :
    variableLength named (name ++ rest) = (name.length, named || !name.isEmpty) := by
  induction name generalizing named with
  | nil =>
    cases rest with
    | nil => simp [variableLength]
    | cons d more =>
      have word := ends d rfl
      rw [List.nil_append, variableLength, word]
      · simp [show d ≠ '(' by rintro rfl; exact parenthesis rfl]
      · rintro others rfl
        exact absurd rfl colon
  | cons c name ih =>
    rw [List.all_cons, Bool.and_eq_true] at all
    rw [List.cons_append, variableLength_cons all.1, ih all.2]
    simp

/-- What follows the name of a placeholder is no part of it. -/
theorem of_variableLength {named : Bool} (all : name.all Sql.isWordChar = true)
    (eq : variableLength named (name ++ rest) = (name.length, true)) :
    (named = true ∨ name ≠ []) ∧ Ends Sql.isWordChar rest ∧ rest.head? ≠ some '(' := by
  induction name generalizing named with
  | nil =>
    cases rest with
    | nil => exact ⟨.inl (by simpa [variableLength] using eq), nofun, nofun⟩
    | cons d more =>
      rw [List.nil_append] at eq
      unfold variableLength at eq
      split at eq
      · simp at eq
      · rename_i c others _ shape
        obtain ⟨rfl, rfl⟩ := List.cons.inj shape
        split at eq
        · simp at eq
        · rename_i word
          split at eq
          · simp only at eq
            split at eq <;> simp at eq
          · rename_i opens
            have named_ : named = true := (Prod.mk.inj eq).2
            refine ⟨.inl named_, ends_cons (by simpa using word), fun open_ => opens ?_⟩
            rw [Option.some.inj open_, named_]
            rfl
      · rename_i shape
        cases shape
  | cons c name ih =>
    rw [List.all_cons, Bool.and_eq_true] at all
    rw [List.cons_append, variableLength_cons all.1] at eq
    obtain ⟨length, ok⟩ := Prod.mk.inj eq
    have inner := ih all.2 (Prod.ext (by simpa using length) ok)
    exact ⟨.inr (by simp), inner.2⟩

theorem variableLength_le (named : Bool) (cs : List Char) : (variableLength named cs).1 ≤ cs.length := by
  fun_induction variableLength named cs with
  | case1 named rest n ok eq ih =>
    rw [eq] at ih
    exact Nat.add_le_add_right ih 2
  | case2 named c rest _ word n ok eq ih =>
    rw [eq] at ih
    exact Nat.add_le_add_right ih 1
  | case3 named c rest _ _ _ n closes =>
    rw [List.head?_drop] at closes
    have inside := (List.getElem?_eq_some_iff.1 closes).1
    exact Nat.add_le_add_right (Nat.succ_le_of_lt inside) 1
  | case4 named c rest _ _ _ n open_ => exact Nat.add_le_add_right (runLength_le _ rest) 1
  | case5 | case6 => exact Nat.zero_le _

theorem extent_question (cs : List Char) : extent '?' cs = (.variable, runLength Char.isDigit cs) := rfl

theorem extent_sign (sign : c = '$' ∨ c = '@' ∨ c = ':') : extent c cs
    = (if (variableLength false cs).2 then .variable else .illegal, (variableLength false cs).1) := by
  rcases sign with rfl | rfl | rfl <;> rfl

theorem plain_of_isPlaceholderStart (sign : isPlaceholderStart c = true) : isWordChar c = false ∧ isBlank c = false ∧ c ≠ '(' := by
  simp only [isPlaceholderStart, Bool.or_eq_true, beq_iff_eq] at sign
  rcases sign with ((rfl | rfl) | rfl) | rfl <;> decide

/-- A placeholder that is taken alike: a number after `?`, or a name after another sign. -/
inductive Holds (c : Char) (name rest : List Char) : Prop
  | number (sign : c = '?') (digits : name.all Char.isDigit = true) (ends : Ends Char.isDigit rest)
  | name (sign : c = '$' ∨ c = '@' ∨ c = ':') (some_ : name ≠ []) (all : name.all isNameChar = true)
    (ends : Ends Sql.isWordChar rest) (parenthesis : rest.head? ≠ some '(')

theorem isSqlWordChar_of_isNameChar (h : isNameChar c = true) : Sql.isWordChar c = true := by
  simp only [isNameChar, Bool.or_eq_true, beq_iff_eq] at h
  rcases h with letter | rfl
  · exact isWordChar_of_isAlphanumeric letter
  · decide

theorem holds_of_tokens (here : tokens cs = t :: ts) (variable_ : t.kind = .variable) (shared : isShared t = true) :
    ∃ c name rest, t.text = c :: name ∧ cs = c :: (name ++ rest) ∧ tokens rest = ts ∧ isPlaceholderStart c = true
      ∧ name.all isNameChar = true ∧ Holds c name rest := by
  cases cs with
  | nil => rw [tokens] at here; cases here
  | cons c cs =>
    rw [tokens] at here
    obtain ⟨rfl, rfl⟩ := List.cons.inj here
    simp only at variable_
    simp only [isShared, variable_, List.head?_cons, Option.any_some, List.tail_cons, Bool.and_eq_true] at shared
    obtain ⟨sign, all⟩ := shared
    refine ⟨c, _, _, rfl, by rw [List.take_append_drop], rfl, sign, all, ?_⟩
    simp only [isPlaceholderStart, Bool.or_eq_true, beq_iff_eq] at sign
    by_cases question : c = '?'
    · subst question
      rw [extent_question] at all ⊢
      have length : runLength Char.isDigit (cs.take (runLength Char.isDigit cs) ++ cs.drop (runLength Char.isDigit cs))
          = (cs.take (runLength Char.isDigit cs)).length := by
        rw [List.take_append_drop, List.length_take, Nat.min_eq_left (runLength_le _ cs)]
      obtain ⟨digits, ends⟩ := all_of_runLength length
      exact .number rfl digits ends
    · have sign : c = '$' ∨ c = '@' ∨ c = ':' := by
        rcases sign with ((h | h) | h) | h
        · exact absurd h question
        · exact .inr (.inr h)
        · exact .inr (.inl h)
        · exact .inl h
      rw [extent_sign sign] at variable_ all ⊢
      simp only at variable_ all ⊢
      have ok : (variableLength false cs).2 = true := by
        cases ok : (variableLength false cs).2 with
        | true => rfl
        | false => simp [ok] at variable_
      have length : variableLength false (cs.take (variableLength false cs).1 ++ cs.drop (variableLength false cs).1)
          = ((cs.take (variableLength false cs).1).length, true) := by
        rw [List.take_append_drop, List.length_take, Nat.min_eq_left (variableLength_le false cs)]
        exact Prod.ext rfl ok
      obtain ⟨some_, ends, parenthesis⟩ := of_variableLength
        (List.all_eq_true.2 fun d mem => isSqlWordChar_of_isNameChar (List.all_eq_true.1 all d mem)) length
      exact .name sign (some_.resolve_left (by simp)) all ends parenthesis

/-- A placeholder stands before everything that begins as what follows it. -/
theorem Holds.stands (h : Holds c name rest) (same : rest'.head? = rest.head?) (colon : rest.head? ≠ some ':') :
    (⟨.variable, c :: name⟩ : Token).Stands rest' := by
  refine ⟨c, name, rfl, ?_⟩
  cases h with
  | number sign digits ends =>
    subst sign
    rw [extent_question, runLength_eq_length digits (ends_congr ends same)]
  | name sign some_ all ends parenthesis =>
    have all : name.all Sql.isWordChar = true :=
      List.all_eq_true.2 fun d mem => isSqlWordChar_of_isNameChar (List.all_eq_true.1 all d mem)
    rw [extent_sign sign, variableLength_of_all all (ends_congr ends same) (same ▸ parenthesis) (same ▸ colon)]
    simp [some_]

/-! ## Shared tokens -/

theorem aligned_cons : aligned (t :: ts) = true ↔ isShared t = true ∧ ts.head?.any (clash t) = false
    ∧ ¬ (t.kind = .variable ∧ isPointed ts = true) ∧ aligned ts = true := by
  rw [aligned]
  simp only [Bool.and_eq_true, Bool.not_eq_true', Bool.and_eq_false_iff, decide_eq_false_iff_not, not_and, Bool.not_eq_true, and_assoc,
    Decidable.imp_iff_not_or]

theorem isPlain_of_isShared (shared : isShared t = true) (other : t.kind ≠ .variable) : t.isPlain = true := by
  unfold isShared at shared
  unfold Token.isPlain
  split at shared <;> simp_all

/-- A shared token that is no placeholder is formed as its kind asks, and what follows it is no part of it. -/
theorem formed_of_aligned (here : tokens cs = t :: ts) (ok : aligned (t :: ts) = true) (other : t.kind ≠ .variable) :
    ∃ rest, cs = t.text ++ rest ∧ tokens rest = ts ∧ t.IsFormed ∧ Ends t.takesIn rest := by
  obtain ⟨shared, apart, -, later⟩ := aligned_cons.1 ok
  obtain ⟨c, body, rest, text, rfl, reaches, there⟩ := reaches_of_tokens here (isPlain_of_isShared shared other)
  obtain ⟨kind, text_⟩ := t
  subst text
  -- a point or a star that follows is a token of its own, and neighbours of a number and of a slash are none of them
  have next : ∀ d, rest.head? = some d → [d] ∈ symbols → (∀ s ∈ symbols, s.head? = some d → s = [d]) → ∃ u us, ts = u :: us
      ∧ (u.kind = .number ∧ d = '.' ∨ u = ⟨.symbol, [d]⟩) := by
    intro d first mem alone
    obtain ⟨more, rfl⟩ := List.head?_eq_some_iff.1 first
    cases ts with
    | nil => rw [tokens] at there; cases there
    | cons u us =>
      refine ⟨u, us, rfl, ?_⟩
      have sign : u.kind ≠ .variable := fun sign => by
        obtain ⟨e, _, _, _, eq, -, placeholder, -⟩ := holds_of_tokens there sign (aligned_cons.1 later).1
        obtain ⟨rfl, -⟩ := List.cons.inj eq
        have plain : ∀ s ∈ symbols, s.head?.any isPlaceholderStart = false := by decide
        have := plain [d] mem
        simp [placeholder] at this
      exact symbol_of_tokens there (isPlain_of_isShared (aligned_cons.1 later).1 sign) mem alone
  have point : kind = .number → rest.head? ≠ some '.' := fun number first => by
    subst number
    obtain ⟨u, us, rfl, ⟨other, -⟩ | rfl⟩ := next '.' first (by decide) (by decide)
    · simp [clash, other] at apart
    · simp [clash] at apart
  have star : kind = .symbol → c = '/' → body = [] → rest.head? ≠ some '*' := fun symbol slash whole first => by
    subst symbol slash whole
    obtain ⟨u, us, rfl, ⟨-, other⟩ | rfl⟩ := next '*' first (by decide) (by decide)
    · cases other
    · simp [clash] at apart
  obtain ⟨formed, ends⟩ := reaches.formed rfl point star
  exact ⟨rest, rfl, there, formed, ends⟩

/-- A word of the scanner is made of whole tokens, which stand before everything that begins as what follows. -/
theorem exists_run (ts : List Token) {cs : List Char} (here : tokens cs = ts) (ok : aligned ts = true) :
    ∃ rest, cs = (ts.takeWhile isWordPart).flatMap Token.text ++ rest ∧ tokens rest = ts.dropWhile isWordPart
      ∧ aligned (ts.dropWhile isWordPart) = true
      ∧ ∀ rest', rest'.head? = rest.head? → Stand rest' (ts.takeWhile isWordPart) := by
  induction ts generalizing cs with
  | nil => exact ⟨cs, rfl, here, ok, fun _ _ => trivial⟩
  | cons t ts ih =>
    cases part : isWordPart t with
    | false =>
      rw [List.takeWhile_cons, List.dropWhile_cons, part, if_neg Bool.false_ne_true, if_neg Bool.false_ne_true]
      exact ⟨cs, rfl, here, ok, fun _ _ => trivial⟩
    | true =>
      have other : t.kind ≠ .variable := by
        simp only [isWordPart, Bool.or_eq_true, decide_eq_true_eq] at part
        rcases part with word | rfl
        · simp [word]
        · simp
      obtain ⟨rest, rfl, there, formed, ends⟩ := formed_of_aligned here ok other
      obtain ⟨more, rfl, later, ok', stand⟩ := ih there (aligned_cons.1 ok).2.2.2
      rw [List.takeWhile_cons, List.dropWhile_cons, part, if_pos rfl, if_pos rfl]
      refine ⟨more, by rw [List.flatMap_cons, List.append_assoc], later, ok', fun rest' same => ⟨formed, ends_congr ends ?_, stand rest' same⟩⟩
      rw [List.head?_append, List.head?_append, same]

/-- After a run of words and points stands neither another of them nor a number. -/
theorem apart_of_run (part : isWordPart t = true) (ok : aligned (t :: ts) = true) :
    (ts.dropWhile isWordPart).head?.any (fun u => isWordPart u || u.kind = .number) = false := by
  induction ts generalizing t with
  | nil => rfl
  | cons u ts ih =>
    obtain ⟨-, apart, -, later⟩ := aligned_cons.1 ok
    rw [List.dropWhile_cons]
    split
    · rename_i goes
      exact ih goes later
    · rename_i stops
      have number : ¬ u.kind = .number := fun number => by simp [clash, part, number] at apart
      simp [Bool.eq_false_iff.2 stops, number]

/-- What begins neither a word, a point nor a number begins no word of the scanner and goes on with none. -/
theorem ends_of_apart (here : tokens cs = ts) (ok : aligned ts = true)
    (apart : ts.head?.any (fun u => isWordPart u || u.kind = .number) = false) : Ends isWordChar cs := by
  cases ts with
  | nil =>
    cases cs with
    | nil => exact nofun
    | cons c cs => rw [tokens] at here; cases here
  | cons t ts =>
    simp only [List.head?_cons, Option.any_some, Bool.or_eq_false_iff, decide_eq_false_iff_not] at apart
    obtain ⟨word, number⟩ := apart
    by_cases sign : t.kind = .variable
    · obtain ⟨c, name, rest, -, rfl, -, first, -⟩ := holds_of_tokens here sign (aligned_cons.1 ok).1
      exact ends_cons (plain_of_isPlaceholderStart first).1
    · obtain ⟨rest, rfl, -, ⟨c, cs, text, formed⟩, -⟩ := formed_of_aligned here ok sign
      rw [text]
      refine ends_cons ?_
      obtain ⟨kind, _⟩ := t
      obtain rfl : _ = c :: cs := text
      cases kind with
      | blank => rcases sqlBlank_cases formed.1 with rfl | rfl | rfl | rfl | rfl <;> decide
      | string => rw [formed.1]; decide
      | quotedName => rcases formed with ⟨rfl | rfl, -⟩ | ⟨rfl, -⟩ <;> decide
      | number => exact absurd rfl number
      | word => simp [isWordPart] at word
      | symbol =>
        have all : ∀ s ∈ symbols, s ≠ ['.'] → s.head?.any isWordChar = false := by decide
        have plain := all _ formed (fun same => by simp [isWordPart, same] at word)
        simpa using plain
      | comment | blob | «variable» | illegal => exact formed.elim

/-- The scanner takes words and points as one word. -/
theorem all_of_parts {parts : List Token} (word : ∀ t ∈ parts, isWordPart t = true ∧ isShared t = true) :
    (parts.flatMap Token.text).all isWordChar = true := by
  rw [List.all_eq_true]
  intro d mem
  obtain ⟨t, here, mem⟩ := List.mem_flatMap.1 mem
  obtain ⟨part, shared⟩ := word t here
  simp only [isWordPart, Bool.or_eq_true, decide_eq_true_eq] at part
  rcases part with kind | rfl
  · simp only [isShared, kind, Bool.and_eq_true] at shared
    exact isWordChar_of_isNameChar (List.all_eq_true.1 shared.2 d mem)
  · obtain rfl := List.mem_singleton.1 mem
    decide

theorem isShared_of_aligned (ok : aligned ts = true) : ∀ t ∈ ts, isShared t = true := by
  induction ts with
  | nil => nofun
  | cons t ts ih =>
    obtain ⟨shared, -, -, later⟩ := aligned_cons.1 ok
    exact List.forall_mem_cons.2 ⟨shared, ih later⟩

/-- The scanner finds the parenthesis of a call where the tokens have it. -/
theorem led_of_aligned (here : tokens cs = ts) (ok : aligned ts = true) : Led ts := by
  induction ts generalizing cs with
  | nil => exact .nil
  | cons t ts ih =>
    obtain ⟨shared, -, -, later⟩ := aligned_cons.1 ok
    by_cases sign : t.kind = .variable
    · obtain ⟨c, name, rest, text, -, -, first, -⟩ := holds_of_tokens here sign shared
      obtain ⟨-, blank, opens⟩ := plain_of_isPlaceholderStart first
      exact .other (by simp [sign]) (by simp [text, blank]) (by simp [text, opens])
    · have plain := isPlain_of_isShared shared sign
      by_cases blank : t.kind = .blank
      · obtain ⟨_, _, rest, -, -, -, there⟩ := reaches_of_tokens here plain
        exact .blank plain blank (ih there later)
      · refine led_of_isPlain here plain blank fun word => ?_
        simp only [isShared, word, Bool.and_eq_true] at shared
        exact shared.1

/-! ## Names in a run -/

/-- No words of a run stand next to each other. -/
theorem point_of_stand {parts : List Token} (stand : Stand rest (t :: u :: parts)) (word : t.kind = .word)
    (part : isWordPart u = true) : u = ⟨.symbol, ['.']⟩ := by
  simp only [isWordPart, Bool.or_eq_true, decide_eq_true_eq] at part
  refine part.resolve_left fun other => ?_
  obtain ⟨-, ends, ⟨c, cs, text, formed⟩, -⟩ := stand
  have goes : Sql.isWordChar c = true := by
    rw [other] at formed
    simp only [isWordFirst, Bool.and_eq_true] at formed
    exact formed.1.1
  have failed := ends c (by rw [List.flatMap_cons, text]; rfl)
  simp [Token.takesIn, word, goes] at failed

/-- A run of words and points that begins with a word is a name, or its text has a point before a point or at its end. -/
theorem name_of_run {parts : List Token} {w : List Char} (stand : Stand rest (⟨.word, w⟩ :: parts))
    (part : ∀ t ∈ parts, isWordPart t = true) : (∃ members, parts = memberTokens members)
      ∨ ∃ before after, parts.flatMap Token.text = before ++ '.' :: after ∧ (after = [] ∨ ∃ more, after = '.' :: more) := by
  match parts with
  | [] => exact .inl ⟨[], rfl⟩
  | point :: others =>
    obtain ⟨first, later⟩ := List.forall_mem_cons.1 part
    obtain rfl := point_of_stand stand rfl first
    match others with
    | [] => exact .inr ⟨[], [], rfl, .inl rfl⟩
    | ⟨kind, v⟩ :: others =>
      obtain ⟨next, further⟩ := List.forall_mem_cons.1 later
      simp only [isWordPart, Bool.or_eq_true, decide_eq_true_eq, Token.mk.injEq] at next
      rcases next with rfl | ⟨rfl, rfl⟩
      · rcases name_of_run stand.2.2.2.2 further with ⟨members, rfl⟩ | ⟨before, after, eq, which⟩
        · exact .inl ⟨v :: members, rfl⟩
        · exact .inr ⟨'.' :: (v ++ before), after, by simp [eq], which⟩
      · exact .inr ⟨[], '.' :: others.flatMap Token.text, rfl, .inr ⟨_, rfl⟩⟩

/-- No path has a point before a point or at its end. -/
theorem text_ne_of_empty (path : FieldPath) {before after : List Char} (empty : after = [] ∨ ∃ more, after = '.' :: more) :
    path.text.toList ≠ before ++ '.' :: after := fun eq => by
  have part : [] ∈ splitDots after := by
    rcases empty with rfl | ⟨more, rfl⟩ <;> simp [splitDots]
  have segment : "" ∈ path.segments := by
    rw [← path.splitDots_text, eq, splitDots_append]
    exact List.mem_map.2 ⟨[], List.mem_append_right _ part, rfl⟩
  exact (path.plain "" segment).1 rfl

theorem toLower_ne_point (other : c ≠ '.') : c.toLower ≠ '.' := by
  unfold Char.toLower
  split
  · rename_i upper
    intro same
    have value : (c.val + ('a'.val - 'A'.val)).toNat = 46 := congrArg (fun d : Char => d.val.toNat) same
    have := UInt32.le_iff_toNat_le.1 upper.1
    have := UInt32.le_iff_toNat_le.1 upper.2
    have : 'A'.val.toNat = 65 ∧ 'Z'.val.toNat = 90 ∧ ('a'.val - 'A'.val).toNat = 32 := by decide
    rw [UInt32.toNat_add] at value
    omega
  · exact other

/-- The first word of a name is the name up to its first point. -/
theorem wordHead_text {n : BareName} (plain : '.' ∉ n.head) :
    String.ofList (wordHead (foldCase (String.ofList n.text)).toList) = foldCase (String.ofList n.head) := by
  have all : ∀ d ∈ n.head.map Char.toLower, (d != '.') = true := by
    intro d mem
    obtain ⟨e, inside, rfl⟩ := List.mem_map.1 mem
    exact bne_iff_ne.2 (toLower_ne_point fun point => plain (point ▸ inside))
  have stops : (((memberTokens n.members).flatMap Token.text).map Char.toLower).takeWhile (· != '.') = [] := by
    cases n.members <;> rfl
  simp only [wordHead, foldCase, String.toList_ofList, BareName.text, List.map_append]
  rw [List.takeWhile_append_of_pos all, stops, List.append_nil]

/-! ## One step -/

/-- All but words and placeholders come out as they are. -/
theorem tokens_of_other (here : tokens cs = t :: ts) (ok : aligned (t :: ts) = true) (sign : t.kind ≠ .variable) (word : t.kind ≠ .word) :
    ∃ rest, tokens rest = ts ∧ tokens (rewritten source cs) = t :: tokens (rewritten source rest) := by
  obtain ⟨rest, rfl, there, formed, ends⟩ := formed_of_aligned here ok sign
  have shared := (aligned_cons.1 ok).1
  rw [rewritten_text source formed ends word fun number => by simpa [isShared, number] using shared,
    tokens_of_stands (formed.stands (rewritten_ends ends (takesIn_words formed)))]
  exact ⟨rest, there, rfl⟩

/-- What a word does not begin keeps its first character. -/
theorem head?_rewritten_of_ends (source : String) (ends : Ends isWordStart cs) : (rewritten source cs).head? = cs.head? := by
  cases cs with
  | nil => rw [rewritten_nil]
  | cons c cs =>
    obtain ⟨d, more, eq, rfl | ⟨first, -⟩⟩ := head?_rewritten source c cs
    · rw [eq]
      rfl
    · rw [ends c rfl] at first
      cases first

/-- The scanner takes a word together with the words and points after it. -/
theorem rewritten_of_word (source : String) (here : tokens cs = t :: ts) (ok : aligned (t :: ts) = true) (word : t.kind = .word) :
    ∃ rest, tokens rest = ts.dropWhile isWordPart
      ∧ rewritten source cs = resolveWord source (callFollows (ts.dropWhile isWordPart))
          ((t :: ts.takeWhile isWordPart).flatMap Token.text) ++ rewritten source rest
      ∧ Stand (rewritten source rest) (t :: ts.takeWhile isWordPart) := by
  have part : isWordPart t = true := by simp [isWordPart, word]
  obtain ⟨rest, run, there, ok', stand⟩ := exists_run (t :: ts) here ok
  rw [List.dropWhile_cons_of_pos part] at there ok'
  rw [List.takeWhile_cons_of_pos part] at run stand
  have stops := ends_of_apart there ok' (apart_of_run part ok)
  have all : ((t :: ts.takeWhile isWordPart).flatMap Token.text).all isWordChar = true := all_of_parts fun u mem => by
    rcases List.mem_cons.1 mem with rfl | mem
    · exact ⟨part, (aligned_cons.1 ok).1⟩
    · exact ⟨List.mem_takeWhile_imp mem, isShared_of_aligned ok u (List.mem_cons_of_mem t ((List.takeWhile_sublist _).subset mem))⟩
  have first := (aligned_cons.1 ok).1
  simp only [isShared, word, Bool.and_eq_true] at first
  obtain ⟨c, body, text⟩ := List.exists_cons_of_ne_nil (show t.text ≠ [] by rintro empty; simp [empty] at first)
  rw [List.flatMap_cons, text, List.cons_append] at run all
  rw [text] at first
  rw [List.all_cons, Bool.and_eq_true] at all
  refine ⟨rest, there, ?_, stand _ (head?_rewritten_of_ends source (stops.imp fun d => isWordChar_of_isNameChar ∘ isNameChar_of_isWordStart))⟩
  rw [run, List.cons_append, rewritten_word (by simpa using first.1) all.2 stops, (led_of_aligned there ok').opensCall_eq there,
    List.flatMap_cons, text, List.cons_append]

/-- A name that is replaced is that of a path. -/
theorem exists_path {isCall : Bool} {w : List Char} (changed : resolveWord source isCall w ≠ w) : ∃ path : FieldPath, path.text.toList = w := by
  rcases resolveWord_cases source isCall w with same | ⟨-, -, ⟨rfl, -⟩ | ⟨-, path, parsed, -⟩⟩
  · exact absurd same changed
  · exact ⟨⟨["_id"], by decide, by decide⟩, by decide⟩
  · exact ⟨path, by rw [(FieldPath.parse_eq_ok_iff.1 parsed).1, String.toList_ofList]⟩

/-- A name that changes is that of a field, and the tokens of what replaces it stand in its place. -/
theorem tokens_of_changed (alone : Separate source) {n : BareName} (plain : '.' ∉ n.head) (stand : Stand rest n.tokens) (after : List Token)
    (changed : resolveWord source (callFollows after) n.text ≠ n.text) : ∃ new, n.IsField after ∧ Replaces source n.text new
      ∧ tokens (resolveWord source (callFollows after) n.text ++ rest) = new ++ tokens rest := by
  rcases resolveWord_cases source (callFollows after) n.text
    with same | ⟨call, keyword, ⟨name, id⟩ | ⟨column, path, parsed, field⟩⟩
  · exact absurd same changed
  · obtain ⟨head, members⟩ := n
    have none_ : members = [] := by
      cases members with
      | nil => rfl
      | cons v members =>
        have point : '.' ∈ "_id".toList := name ▸ List.mem_append_right _ List.mem_cons_self
        exact absurd point (by decide)
    subst none_
    obtain rfl : head = "_id".toList := (List.append_nil head).symm.trans name
    have ends : Ends Sql.isWordChar rest := stand.2.1.imp fun d goes => by simp [Token.takesIn, goes]
    have id_ : Stand rest [⟨.word, "id".toList⟩] :=
      ⟨⟨_, _, rfl, by decide⟩, ends.imp fun d goes => by simpa [Token.takesIn] using goes, trivial⟩
    refine ⟨[⟨.word, "id".toList⟩], ⟨keyword, call, by decide⟩, .identifier, ?_⟩
    rw [id]
    exact tokens_of_stand id_
  · obtain ⟨text, -⟩ := FieldPath.parse_eq_ok_iff.1 parsed
    rw [wordHead_text plain] at column
    refine ⟨Sql.tokens (extractText source path).toList, ⟨keyword, call, column⟩, ?_, ?_⟩
    · have replaced : Replaces source _ _ := .field path
      rwa [text, String.toList_ofList] at replaced
    · rw [field, tokens_extractText alone, ← List.append_nil (extractText source path).toList, tokens_extractText alone,
        show tokens [] = [] by rw [tokens], List.append_nil]

/-- A word with what the scanner takes together with it stays, or it is a name and becomes what replaces that. -/
theorem tokens_of_word (alone : Separate source) (here : tokens cs = t :: ts) (ok : aligned (t :: ts) = true) (word : t.kind = .word) :
    ∃ rest, tokens rest = ts.dropWhile isWordPart
      ∧ (tokens (rewritten source cs) = t :: ts.takeWhile isWordPart ++ tokens (rewritten source rest)
        ∨ ∃ (n : BareName) (new : List Token), t :: ts.takeWhile isWordPart = n.tokens ∧ n.IsField (ts.dropWhile isWordPart)
          ∧ Replaces source n.text new ∧ tokens (rewritten source cs) = new ++ tokens (rewritten source rest)) := by
  obtain ⟨rest, there, text, stand⟩ := rewritten_of_word source here ok word
  refine ⟨rest, there, ?_⟩
  rw [text]
  by_cases same : resolveWord source (callFollows (ts.dropWhile isWordPart)) ((t :: ts.takeWhile isWordPart).flatMap Token.text)
      = (t :: ts.takeWhile isWordPart).flatMap Token.text
  · rw [same, tokens_of_stand stand]
    exact .inl rfl
  right
  obtain ⟨path, path_⟩ := exists_path same
  obtain ⟨kind, w⟩ := t
  obtain rfl : kind = .word := word
  obtain ⟨members, eq⟩ : ∃ members, ts.takeWhile isWordPart = memberTokens members := by
    refine (name_of_run stand fun u mem => List.mem_takeWhile_imp mem).resolve_right ?_
    rintro ⟨before, after, eq, empty⟩
    have text : path.text.toList = (w ++ before) ++ '.' :: after := by
      rw [path_, List.flatMap_cons, eq, List.append_assoc]
    exact text_ne_of_empty path empty text
  rw [eq] at stand same ⊢
  have plain : '.' ∉ w := fun mem => by
    have shared := (aligned_cons.1 ok).1
    simp only [isShared, Bool.and_eq_true] at shared
    exact absurd (List.all_eq_true.1 shared.2 _ mem) (by decide)
  obtain ⟨new, field, replaces, new_⟩ := tokens_of_changed alone (n := ⟨w, members⟩) plain stand _ same
  exact ⟨_, new, rfl, field, replaces, new_⟩

/-- What goes on with the name of a placeholder, and is no digit, is a word. -/
theorem word_of_name (here : tokens cs = ts) (ok : aligned ts = true) (goes : ¬ Ends isNameChar cs) (digit : Ends Char.isDigit cs) :
    ∃ w us, ts = ⟨.word, w⟩ :: us := by
  obtain ⟨c, more, rfl, name⟩ : ∃ c more, cs = c :: more ∧ isNameChar c = true := by
    cases cs with
    | nil => exact absurd nofun goes
    | cons c more => exact ⟨c, more, rfl, Decidable.not_not.1 fun other => goes (ends_cons (Bool.eq_false_iff.2 other))⟩
  have point : c ≠ '.' := by
    rintro rfl
    exact absurd name (by decide)
  cases ts with
  | nil => rw [tokens] at here; cases here
  | cons u us =>
    obtain ⟨kind, text⟩ := u
    by_cases word : kind = .word
    · subst word
      exact ⟨text, us, rfl⟩
    exfalso
    by_cases apart : (isWordPart ⟨kind, text⟩ || decide (kind = .number)) = false
    · have failed := ends_of_apart here ok apart c rfl
      rw [isWordChar_of_isNameChar name] at failed
      cases failed
    · simp only [isWordPart, word, decide_false, Bool.false_or, Bool.not_eq_false, Bool.or_eq_true, decide_eq_true_eq, Token.mk.injEq] at apart
      have sign : kind ≠ .variable := by rintro rfl; simp at apart
      obtain ⟨rest, eq, -, ⟨e, cs, head, formed⟩, -⟩ := formed_of_aligned here ok sign
      obtain rfl : text = e :: cs := head
      obtain ⟨rfl, -⟩ := List.cons.inj eq
      rcases apart with ⟨rfl, same⟩ | rfl
      · exact point (List.cons.inj same).1
      · rcases formed.1 with first | ⟨same, -⟩
        · rw [digit _ rfl] at first
          cases first
        · exact point same

/-- No other placeholder begins right after one. -/
theorem head?_ne_colon (here : tokens cs = ts) (ok : aligned ts = true) (apart : ts.head?.any (·.kind = .variable) = false) :
    cs.head? ≠ some ':' := fun colon => by
  obtain ⟨more, rfl⟩ := List.head?_eq_some_iff.1 colon
  rw [tokens, extent_sign (.inr (.inr rfl))] at here
  subst here
  cases legal : (variableLength false more).2 with
  | true => simp [legal] at apart
  | false =>
    have shared := (aligned_cons.1 ok).1
    simp [legal, isShared] at shared

/-- A placeholder stays, and with it a word that stands right after it. -/
theorem tokens_of_placeholder (source : String) (here : tokens cs = t :: ts) (ok : aligned (t :: ts) = true) (sign : t.kind = .variable) :
    (∃ rest, tokens rest = ts ∧ tokens (rewritten source cs) = t :: tokens (rewritten source rest))
      ∨ ∃ w us rest, ts = ⟨.word, w⟩ :: us ∧ IsWhole us ∧ tokens rest = us
        ∧ tokens (rewritten source cs) = t :: ⟨.word, w⟩ :: tokens (rewritten source rest) := by
  obtain ⟨shared, apart, pointed, later⟩ := aligned_cons.1 ok
  obtain ⟨c, name, rest, text, rfl, there, first, all, holds⟩ := holds_of_tokens here sign shared
  obtain ⟨kind, _⟩ := t
  obtain rfl : kind = .variable := sign
  obtain rfl : _ = c :: name := text
  have colon : rest.head? ≠ some ':' := head?_ne_colon there later (by
    cases ts with
    | nil => rfl
    | cons u us => simpa [clash, isWordPart] using apart)
  by_cases ends : Ends isNameChar rest
  · left
    have same := head?_rewritten_of_ends source (ends.imp fun d => isNameChar_of_isWordStart)
    rw [rewritten_placeholder first all ends, ← List.cons_append]
    exact ⟨rest, there, tokens_of_stands (holds.stands same colon)⟩
  · right
    -- only a placeholder of digits is followed by a character of a name, which the scanner takes in with it
    have digit : Ends Char.isDigit rest := by
      cases holds with
      | number _ _ digit => exact digit
      | name _ _ _ stops => exact absurd (stops.imp fun d => isSqlWordChar_of_isNameChar) ends
    obtain ⟨w, us, rfl⟩ := word_of_name there later ends digit
    obtain ⟨more, rfl, there', formed, stops⟩ := formed_of_aligned there later (by simp)
    have word := (aligned_cons.1 later).1
    simp only [isShared, Bool.and_eq_true] at word
    have names : (name ++ w).all isNameChar = true := by rw [List.all_append, all, word.2, Bool.and_self]
    have stops' : Ends isNameChar more := stops.imp fun d goes => by simp [Token.takesIn, isSqlWordChar_of_isNameChar goes]
    have same : (w ++ rewritten source more).head? = (w ++ more).head? := by
      rw [List.head?_append, List.head?_append, head?_rewritten_of_ends source (stops'.imp fun d => isNameChar_of_isWordStart)]
    refine ⟨w, us, more, rfl, ?_, there', ?_⟩
    · rintro v others rfl
      exact pointed ⟨rfl, by simp [isPointed]⟩
    · rw [← List.append_assoc, rewritten_placeholder first names stops', List.append_assoc, ← List.cons_append,
        tokens_of_stands (holds.stands same colon),
        tokens_of_stands (formed.stands (rewritten_ends stops (takesIn_words formed)))]

/-! ## The whole fragment -/

theorem IsWhole.append (whole : IsWhole ts) (stop : us.head?.any isWordPart = false) : IsWhole (ts ++ us) := by
  intro v more eq
  match ts, whole with
  | [], _ =>
    rw [List.nil_append] at eq
    simp [eq, isWordPart] at stop
  | [_], _ =>
    have after : us = ⟨.word, v⟩ :: more := (List.cons.inj eq).2
    simp [after, isWordPart] at stop
  | _ :: _ :: ts, whole =>
    obtain ⟨rfl, after⟩ := List.cons.inj eq
    exact whole v ts (by rw [(List.cons.inj after).1])

/-- Words and points that stay, before what is none of them. -/
theorem Rewrites.keepParts (parts : List Token) (part : ∀ t ∈ parts, isWordPart t = true) (stop : ts.head?.any isWordPart = false)
    (later : Rewrites source ts us) : Rewrites source (parts ++ ts) (parts ++ us) := by
  match parts with
  | [] => exact later
  | ⟨kind, w⟩ :: parts =>
    obtain ⟨-, others⟩ := List.forall_mem_cons.1 part
    by_cases word : kind = .word
    · subst word
      obtain ⟨members, rest, eq, whole⟩ := exists_members parts
      have shorter : rest.length ≤ parts.length := by
        rw [eq, List.length_append]
        omega
      have inner := Rewrites.keepParts rest (fun t mem => others t (eq ▸ List.mem_append_right _ mem)) stop later
      have kept := Rewrites.keepName ⟨w, members⟩ (whole.append stop) inner
      rw [eq]
      simpa [BareName.tokens] using kept
    · exact .keep word (Rewrites.keepParts parts others stop later)
termination_by parts.length
decreasing_by all_goals (simp only [List.length_cons]; omega)

theorem aligned_dropWhile (ok : aligned ts = true) (p : Token → Bool) : aligned (ts.dropWhile p) = true := by
  induction ts with
  | nil => rfl
  | cons t ts ih =>
    rw [List.dropWhile_cons]
    split
    · exact ih (aligned_cons.1 ok).2.2.2
    · exact ok

/-- The rewriting changes names of fields and nothing else. -/
theorem rewrites_rewritten (alone : Separate source) (ts : List Token) {cs : List Char} (here : tokens cs = ts) (ok : aligned ts = true) :
    Rewrites source ts (tokens (rewritten source cs)) := by
  match ts with
  | [] =>
    have empty : cs = [] := by
      cases cs with
      | nil => rfl
      | cons => rw [tokens] at here; cases here
    rw [empty, rewritten_nil, show tokens [] = [] by rw [tokens]]
    exact .nil
  | t :: ts =>
    have later := (aligned_cons.1 ok).2.2.2
    by_cases sign : t.kind = .variable
    · rcases tokens_of_placeholder source here ok sign with ⟨rest, there, text⟩ | ⟨w, us, rest, eq, whole, there, text⟩
      · rw [text]
        exact .keep (by simp [sign]) (rewrites_rewritten alone ts there later)
      · rw [eq] at later
        have shorter : us.length < ts.length := by simp [eq]
        rw [text, eq]
        exact .keep (by simp [sign]) (.keepName ⟨w, []⟩ whole (rewrites_rewritten alone us there (aligned_cons.1 later).2.2.2))
    by_cases word : t.kind = .word
    · have part : isWordPart t = true := by simp [isWordPart, word]
      have apart := apart_of_run part ok
      have stop : (ts.dropWhile isWordPart).head?.any isWordPart = false := by
        cases first : (ts.dropWhile isWordPart).head? with
        | none => rfl
        | some u =>
          rw [first] at apart
          exact (Bool.or_eq_false_iff.1 apart).1
      have shorter := List.length_dropWhile_le isWordPart ts
      obtain ⟨rest, there, text⟩ := tokens_of_word alone here ok word
      have inner := rewrites_rewritten alone (ts.dropWhile isWordPart) there (aligned_dropWhile later _)
      have whole : t :: ts = (t :: ts.takeWhile isWordPart) ++ ts.dropWhile isWordPart := by simp
      rw [whole]
      rcases text with text | ⟨n, new, name, field, replaces, text⟩
      · rw [text]
        exact Rewrites.keepParts _ (List.forall_mem_cons.2 ⟨part, fun u mem => List.mem_takeWhile_imp mem⟩) stop inner
      · rw [text, name]
        have nothing : IsWhole ([] ++ ts.dropWhile isWordPart) := IsWhole.append (fun _ _ eq => by cases eq) stop
        exact .replace n nothing field replaces inner
    · obtain ⟨rest, there, text⟩ := tokens_of_other here ok sign word
      rw [text]
      exact .keep word (rewrites_rewritten alone ts there later)
termination_by ts.length
decreasing_by all_goals (simp only [List.length_cons]; omega)

/-- The rewriting changes names of fields and nothing else. A fragment that extracts by itself does not change at all. -/
theorem rewrites_resolve (alone : Separate source) (ok : ¬ Extracts fragment.toList → aligned (tokens fragment.toList) = true) :
    Rewrites source (tokens fragment.toList) (tokens (resolve source fragment).toList)
      ∧ ((tokens fragment.toList).filter Token.isLiteral).Sublist ((tokens (resolve source fragment).toList).filter Token.isLiteral) := by
  have rewrites : Rewrites source (tokens fragment.toList) (tokens (resolve source fragment).toList) := by
    by_cases extracts : Extracts fragment.toList
    · rw [resolve_of_extracts extracts]
      exact .refl ..
    · rw [toList_resolve extracts]
      exact rewrites_rewritten alone _ rfl (ok extracts)
  exact ⟨rewrites, rewrites.sublist⟩

theorem rewrites_resolve_mixed : Separate Check.newBody ∧ aligned (tokens "a.b = 'x''y' AND \"q\" IN (?1, :n) OR lower(_id) < 1.5e3".toList) = true
    ∧ Rewrites Check.newBody (tokens "a.b = 'x''y' AND \"q\" IN (?1, :n) OR lower(_id) < 1.5e3".toList)
        (tokens (resolve Check.newBody "a.b = 'x''y' AND \"q\" IN (?1, :n) OR lower(_id) < 1.5e3").toList) := by
  have ok : aligned (tokens "a.b = 'x''y' AND \"q\" IN (?1, :n) OR lower(_id) < 1.5e3".toList) = true := by decide +kernel
  exact ⟨tokens_newBody.2, ok, (rewrites_resolve tokens_newBody.2 fun _ => ok).1⟩

/-- The scanner takes the sign of a blob for a name. -/
theorem blob_changed : ⟨.blob, "x'ab'".toList⟩ ∈ tokens "x'ab' = y".toList
    ∧ ¬ ((tokens "x'ab' = y".toList).filter Token.isLiteral).Sublist
        ((tokens (resolve bodyColumn "x'ab' = y").toList).filter Token.isLiteral) := by
  decide +kernel

end Raw

end Dossier
