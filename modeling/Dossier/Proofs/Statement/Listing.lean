import Dossier.Database.Select
import Dossier.Proofs.Raw.Condition

/-!
# Order and page as the engine reads them

The text of a listing stands after a condition of the caller. The engine reads whole tokens there, none of them a place of a
value, so that it reads the same lexemes after every condition (`Listing.lexemesFrom_text`).
-/

namespace Dossier

open Text Sql Raw

variable {rest cs : List Char} {ts us : List Token} {t : Token}

namespace Sql

theorem stand_append : Raw.Stand rest (ts ++ us) ↔ Raw.Stand (us.flatMap Token.text ++ rest) ts ∧ Raw.Stand rest us := by
  induction ts with
  | nil => simp [Raw.Stand]
  | cons t ts ih => simp [Raw.Stand, ih, and_assoc]

/-- The token stands for one lexeme or for none, whatever stands before it, and holds no U+0000. -/
def Token.isConstant (t : Token) : Bool :=
  (t.kind = .blank || t.lexeme?.any fun l => l == l) && !t.text.contains '\x00'

theorem isConstant_of_lexeme? {kind : TokenKind} {l : Lexeme} (lexeme : (⟨kind, cs⟩ : Token).lexeme? = some l)
    (same : (l == l) = true) (plain : '\x00' ∉ cs) : (⟨kind, cs⟩ : Token).isConstant = true := by
  simp [Token.isConstant, lexeme, same, plain]

theorem beq_string (text : String) : (Lexeme.string text == .string text) = true := beq_self_eq_true text

theorem isConstant_quotedName (plain : '\x00' ∉ cs) : (⟨.quotedName, '"' :: cs⟩ : Token).isConstant = true := by
  have same : ∀ text, (Lexeme.quoted text true == .quoted text true) = true :=
    fun text => Bool.and_eq_true_iff.2 ⟨beq_self_eq_true text, rfl⟩
  exact isConstant_of_lexeme? rfl (same _) (by simp [plain])

/-- The lexemes of tokens of which none is the place of a value. -/
def constants (ts : List Token) : List Lexeme := ts.filterMap fun t => if t.kind = .blank then none else t.lexeme?

theorem lexemesFrom_constants (all : ts.all Token.isConstant = true) (us : List Token) (s : Numbering) :
    lexemesFrom s (ts ++ us) = (lexemesFrom s us).map fun p => (constants ts ++ p.1, p.2) := by
  induction ts with
  | nil => simp [constants]
  | cons t ts ih =>
    rw [List.all_cons, Bool.and_eq_true] at all
    obtain ⟨here, later⟩ := all
    simp only [Token.isConstant, Bool.and_eq_true, Bool.or_eq_true, decide_eq_true_eq, Option.any_eq_true] at here
    by_cases blank : t.kind = .blank
    · obtain ⟨kind, text⟩ := t
      cases blank
      rw [List.cons_append, lexemesFrom, ih later]
      rfl
    · obtain ⟨l, lexeme, -⟩ := here.1.resolve_left blank
      rw [List.cons_append, lexemesFrom_cons s lexeme, ih later]
      simp [constants, blank, lexeme, Function.comp_def]

theorem constants_beq (all : ts.all Token.isConstant = true) : (constants ts == constants ts) = true := by
  induction ts with
  | nil => rfl
  | cons t ts ih =>
    rw [List.all_cons, Bool.and_eq_true] at all
    obtain ⟨here, later⟩ := all
    simp only [Token.isConstant, Bool.and_eq_true, Bool.or_eq_true, decide_eq_true_eq, Option.any_eq_true] at here
    by_cases blank : t.kind = .blank
    · simpa [constants, blank] using ih later
    · obtain ⟨l, lexeme, same⟩ := here.1.resolve_left blank
      have eq : constants (t :: ts) = l :: constants ts := by simp [constants, blank, lexeme]
      rw [eq]
      show (l == l && constants ts == constants ts) = true
      rw [same, ih later]
      rfl

end Sql

/-! ## Names and numbers -/

theorem toList_quoteName (name : String) : (quoteName name).toList = '"' :: (doubled '"' name.toList ++ ['"']) := by
  rw [quoteName, String.toList_ofList]
  rfl

/-- A name in quotes is a token. -/
theorem formed_quoteName (name : String) : (⟨.quotedName, (quoteName name).toList⟩ : Token).IsFormed := by
  rw [toList_quoteName]
  refine ⟨_, _, rfl, .inl ⟨.inl rfl, ?_⟩⟩
  rw [quoteLength?_doubled, List.length_append, Nat.add_comm]
  rfl

/-- A number in decimal is a token. -/
theorem formed_natText (n : Nat) : (⟨.number, (Listing.natText n).toList⟩ : Token).IsFormed := by
  have digits : ∀ c ∈ (Listing.natText n).toList, c.isDigit = true := by
    rw [Listing.natText, String.toList_ofList]
    exact fun c => isDigit_of_mem_natDigits
  obtain ⟨c, cs, text⟩ := List.exists_cons_of_ne_nil (show (Listing.natText n).toList ≠ [] by
    rw [Listing.natText, String.toList_ofList]
    exact natDigits_ne_nil n)
  rw [text] at digits ⊢
  have whole : (c :: cs).all isDigitOrSeparator = true :=
    List.all_eq_true.2 fun d mem => isDigitOrSeparator_of_isDigit (digits d mem)
  exact ⟨c, cs, rfl, .inl (digits c List.mem_cons_self), .inr ⟨c :: cs, [], [], by simp, whole, .inl rfl, .inl rfl⟩⟩

theorem separatorsInside_of_digits {isDigit : Char → Bool} (cs : List Char) (plain : '_' ∉ cs) (before : Bool) :
    separatorsInside isDigit before cs = true := by
  induction cs generalizing before with
  | nil => rfl
  | cons c cs ih =>
    rw [List.mem_cons, not_or] at plain
    rw [separatorsInside]
    · exact ih plain.2 _
    · rintro rfl
      exact absurd rfl plain.1

/-- A number in decimal is read as the number. -/
theorem numberLexeme?_natText (n : Nat) : numberLexeme? (Listing.natText n).toList = some (.whole n) := by
  have chars : (Listing.natText n).toList = Decimal.natDigits n := by
    rw [Listing.natText, String.toList_ofList, Decimal.natDigits]
  have digits : ∀ c ∈ Decimal.natDigits n, c.isDigit = true := fun c => isDigit_of_mem_natDigits
  have value := decimalNumber_natDigits n
  rw [chars]
  generalize Decimal.natDigits n = cs at digits value
  have no : ∀ c, c.isDigit = false → c ∉ cs := fun c other mem => by
    rw [digits c mem] at other
    cases other
  have hex : (cs.take 2 == ['0', 'x'] || cs.take 2 == ['0', 'X']) = false := by
    simp only [Bool.or_eq_false_iff, beq_eq_false_iff_ne]
    refine ⟨fun eq => no 'x' (by decide) ?_, fun eq => no 'X' (by decide) ?_⟩
    all_goals
      refine List.mem_of_mem_take (i := 2) ?_
      simp [eq]
  have same : cs.filter (· != '_') = cs := List.filter_eq_self.2 fun c mem => bne_iff_ne.2 fun line => no '_' (by decide) (line ▸ mem)
  unfold numberLexeme?
  simp only [hex, same, Bool.false_eq_true, if_false]
  rw [separatorsInside_of_digits cs (no '_' (by decide)), if_pos rfl, if_pos (List.all_eq_true.2 digits), value]

theorem isConstant_natText (n : Nat) : (⟨.number, (Listing.natText n).toList⟩ : Token).isConstant = true := by
  refine isConstant_of_lexeme? (numberLexeme?_natText n) (beq_self_eq_true n) fun mem => ?_
  rw [Listing.natText, String.toList_ofList] at mem
  exact absurd (isDigit_of_mem_natDigits mem) (by decide)

/-! ## Keys -/

/-- A blank. -/
def Sql.Token.space : Token := ⟨.blank, [' ']⟩

theorem stand_space (start : Ends Value.isPadding (ts.flatMap Token.text ++ rest)) (later : Stand rest ts) :
    Stand rest (.space :: ts) :=
  ⟨⟨' ', [], rfl, by decide, rfl⟩, start, later⟩

/-- The tokens of what a key orders by. -/
def Operand.tokens : Operand → List Token
  | .system c => [⟨.word, c.name.toList⟩]
  | .promoted column => [⟨.quotedName, (quoteName column).toList⟩]
  | .extract path => extractionTokens bodyColumn path.jsonPath

theorem Operand.text_tokens (x : Operand) : x.tokens.flatMap Token.text = x.text.toList := by
  cases x with
  | system c => simp [tokens, text]
  | promoted column => simp [tokens, text]
  | extract path =>
    simp only [tokens, text, extractionTokens, tokens_bodyColumn.1, extractText_eq, FieldPath.literal, String.toList_append]
    simp [bodyColumn]

/-- The tokens of a key, the blank before it and the comma after it. -/
def SortKey.tokens (r : Resolver) (key : SortKey) : List Token :=
  .space :: ((r.operand key.field).tokens ++ [.space, ⟨.word, key.direction.text.toList⟩, ⟨.symbol, [',']⟩])

theorem stand_operand (x : Operand) (rest : List Char) : Stand (' ' :: rest) x.tokens := by
  cases x with
  | system c => cases c <;> exact ⟨⟨_, _, rfl, by decide⟩, ends_cons (by decide), trivial⟩
  | promoted column =>
    refine ⟨formed_quoteName column, ends_cons ?_, trivial⟩
    rw [toList_quoteName]
    rfl
  | extract path =>
    rw [Operand.tokens, extractionTokens, tokens_bodyColumn.1]
    exact ⟨⟨_, _, rfl, by decide⟩, ends_cons rfl, ⟨_, _, rfl, by decide⟩, fun d _ => takesIn_alone d (by decide) (by decide),
      ⟨_, _, rfl, by decide⟩, ends_cons (by decide), ⟨_, _, rfl, by decide⟩, fun d _ => takesIn_alone d (by decide) (by decide),
      ⟨_, _, rfl, by decide⟩, ends_cons rfl, formed_literal path, ends_cons rfl,
      ⟨_, _, rfl, by decide⟩, fun d _ => takesIn_alone d (by decide) (by decide), trivial⟩

theorem SortKey.text_tokens (r : Resolver) (key : SortKey) :
    (key.tokens r).flatMap Token.text = ' ' :: ((key.text r).toList ++ [',']) := by
  simp [tokens, text, Token.space, Operand.text_tokens, String.toList_append]

/-- What a key orders by begins with no blank. -/
theorem Operand.head?_text (x : Operand) (rest : List Char) : Ends Value.isPadding (x.text.toList ++ rest) := by
  cases x with
  | system c => cases c <;> exact ends_cons (by decide)
  | promoted column =>
    rw [text, toList_quoteName]
    exact ends_cons (by decide)
  | extract path =>
    rw [text, extractText_eq, String.append_assoc, String.append_assoc, String.toList_append]
    exact ends_cons (by decide)

/-- A key stands before everything. -/
theorem SortKey.stand (r : Resolver) (key : SortKey) (rest : List Char) : Stand rest (key.tokens r) := by
  have last : Stand rest [.space, ⟨.word, key.direction.text.toList⟩, ⟨.symbol, [',']⟩] := by
    cases key.direction <;> exact stand_space (ends_cons (by decide)) ⟨⟨_, _, rfl, by decide⟩, ends_cons (by decide),
      ⟨_, _, rfl, by decide⟩, fun d _ => takesIn_alone d (by decide) (by decide), trivial⟩
  refine stand_space ?_ (stand_append.2 ⟨stand_operand _ _, last⟩)
  rw [List.flatMap_append, Operand.text_tokens, List.append_assoc]
  exact Operand.head?_text _ _

theorem mem_joinWith {between : String} {parts : List String} {c : Char} (mem : c ∈ (joinWith between parts).toList) :
    c ∈ between.toList ∨ ∃ part ∈ parts, c ∈ part.toList := by
  induction parts with
  | nil => cases mem
  | cons part parts ih =>
    cases parts with
    | nil => exact .inr ⟨part, List.mem_cons_self, by simpa [joinWith] using mem⟩
    | cons next parts =>
      simp only [joinWith, String.toList_ofList, List.map_cons, List.intercalate_cons_cons, List.mem_append] at mem ih
      rcases mem with (here | between_) | later
      · exact .inr ⟨part, List.mem_cons_self, here⟩
      · exact .inl between_
      · rcases ih later with between_ | ⟨p, there, inside⟩
        · exact .inl between_
        · exact .inr ⟨p, List.mem_cons_of_mem part there, inside⟩

theorem nul_not_mem_jsonPath (path : FieldPath) : '\x00' ∉ path.jsonPath.toList := fun mem => by
  rcases mem_jsonPath mem with h | h | h | h <;> exact absurd h (by decide)

/-- An extraction from the body is of constants. -/
theorem isConstant_extraction (path : FieldPath) : (extractionTokens bodyColumn path.jsonPath).all Token.isConstant = true := by
  have literal : (⟨.string, '\'' :: (path.jsonPath.toList ++ ['\''])⟩ : Token).isConstant = true := by
    have plain : '\x00' ∉ '\'' :: (path.jsonPath.toList ++ ['\'']) := by simp [nul_not_mem_jsonPath path]
    exact isConstant_of_lexeme? (lexeme?_literal path) (beq_string path.jsonPath) plain
  rw [extractionTokens, tokens_bodyColumn.1]
  simp only [List.cons_append, List.nil_append, List.all_cons, List.all_nil, literal, Bool.true_and, Bool.and_true]
  decide

theorem nul_not_mem_column (path : FieldPath) : '\x00' ∉ path.column.toList := fun mem => by
  have nul : isSegmentChar '\x00' = false := by decide
  rcases mem_joinWith mem with line | ⟨s, segment, inside⟩
  · exact absurd line (by decide)
  · rw [List.all_eq_true.1 (path.plain s segment).2 _ inside] at nul
    cases nul

theorem nul_not_mem_quoteName {name : String} (plain : '\x00' ∉ name.toList) : '\x00' ∉ (quoteName name).toList := by
  rw [toList_quoteName]
  simp only [List.mem_cons, List.mem_append, mem_doubled, List.not_mem_nil, or_false, not_or]
  exact ⟨by decide, plain, by decide⟩

/-- A key orders by constants. -/
theorem isConstant_operand (r : Resolver) (f : FieldRef) : (r.operand f).tokens.all Token.isConstant = true := by
  unfold Resolver.operand
  split
  · rename_i c
    cases c <;> decide
  split
  · rename_i path _
    have plain := nul_not_mem_quoteName (nul_not_mem_column path)
    rw [toList_quoteName] at plain
    rw [Operand.tokens, List.all_cons, List.all_nil, Bool.and_true, toList_quoteName]
    exact isConstant_quotedName (List.not_mem_of_not_mem_cons plain)
  · exact isConstant_extraction _

namespace Listing

/-- The tokens of a word and a number. -/
def clauseTokens (word : String) (n : Nat) : List Token :=
  [.space, ⟨.word, word.toList⟩, .space, ⟨.number, (natText n).toList⟩]

/-- The tokens of a limit and a skip. -/
def pageTokens (l : Listing) : List Token :=
  match l.limit, l.skip with
  | none, none => []
  | some limit, none => clauseTokens "LIMIT" limit
  | some limit, some skip => clauseTokens "LIMIT" limit ++ clauseTokens "OFFSET" skip
  | none, some skip =>
    [.space, ⟨.word, "LIMIT".toList⟩, .space, ⟨.symbol, ['-']⟩, ⟨.number, ['1']⟩] ++ clauseTokens "OFFSET" skip

/-- The tokens of order and page. -/
def tokens (l : Listing) (r : Resolver) : List Token :=
  [.space, ⟨.word, "ORDER".toList⟩, .space, ⟨.word, "BY".toList⟩] ++ (l.keys.flatMap (SortKey.tokens r)
    ++ ([.space, ⟨.word, orderColumn.toList⟩, .space, ⟨.word, "ASC".toList⟩] ++ l.pageTokens))

/-- Texts between separators, each with the blank of the separator before it. -/
theorem joinWith_comma (keys : List String) (last : String) :
    ' ' :: (joinWith ", " (keys ++ [last])).toList = keys.flatMap (fun k => ' ' :: (k.toList ++ [','])) ++ ' ' :: last.toList := by
  induction keys with
  | nil => simp [joinWith]
  | cons k keys ih =>
    have step : ∀ (x : String) (xs : List String), xs ≠ [] → (joinWith ", " (x :: xs)).toList
        = x.toList ++ ',' :: ' ' :: (joinWith ", " xs).toList := by
      intro x xs some_
      obtain ⟨y, ys, rfl⟩ := List.exists_cons_of_ne_nil some_
      simp [joinWith, List.intercalate_cons_cons]
    rw [List.cons_append, step k _ (by simp), ih]
    simp

theorem text_page (l : Listing) : l.pageTokens.flatMap Token.text = l.pageText.toList := by
  obtain ⟨sort, limit, skip⟩ := l
  cases limit <;> cases skip <;> simp [pageTokens, pageText, clauseTokens, Token.space, String.toList_append]

theorem text_tokens (l : Listing) (r : Resolver) : (l.tokens r).flatMap Token.text = (l.text r).toList := by
  have keys : (l.keys.flatMap (SortKey.tokens r)).flatMap Token.text
      = (l.keys.map (SortKey.text r)).flatMap fun k => ' ' :: (k.toList ++ [',']) := by
    rw [List.flatMap_assoc, List.flatMap_map]
    exact congrArg List.flatten (List.map_congr_left fun key _ => SortKey.text_tokens r key)
  have order := joinWith_comma (l.keys.map (SortKey.text r)) (orderColumn ++ " ASC")
  rw [tokens, List.flatMap_append, List.flatMap_append, List.flatMap_append, keys, text_page, text, orderText, String.toList_append,
    String.toList_append, show " ORDER BY ".toList = " ORDER BY".toList ++ [' '] from rfl, List.append_assoc, List.append_assoc,
    List.singleton_append, ← List.cons_append, order]
  simp [Token.space, orderColumn]

theorem stand_clause {word : String} (which : word = "LIMIT" ∨ word = "OFFSET") (n : Nat) (ends : Ends goesOn rest) :
    Stand rest (clauseTokens word n) := by
  obtain ⟨c, cs, text, formed⟩ := formed_natText n
  have digit : Value.isPadding c = false := by
    rcases formed.1 with digit | ⟨rfl, -⟩
    · have := not_isBlank_of_isNameChar (isNameChar_of_isDigit digit)
      exact Bool.eq_false_iff.2 fun padding => absurd (isBlank_of_isPadding padding) (by simp [this])
    · decide
  have number : Stand rest [.space, ⟨.number, (natText n).toList⟩] := by
    refine stand_space ?_ ⟨formed_natText n, ends, trivial⟩
    rw [List.flatMap_singleton, text]
    exact ends_cons digit
  rcases which with rfl | rfl <;> exact stand_space (ends_cons (by decide)) ⟨⟨_, _, rfl, by decide⟩, ends_cons (by decide), number⟩

theorem stand_page (l : Listing) : Stand [] l.pageTokens := by
  obtain ⟨sort, limit, skip⟩ := l
  cases limit with
  | none =>
    cases skip with
    | none => trivial
    | some skip =>
      refine stand_append.2 ⟨stand_space (ends_cons (by decide)) ⟨⟨_, _, rfl, by decide⟩, ends_cons (by decide),
        stand_space (ends_cons (by decide)) ⟨⟨_, _, rfl, by decide⟩, ends_cons (by decide), ⟨_, _, rfl, ?_⟩, ends_cons (by decide), trivial⟩⟩,
        stand_clause (.inr rfl) skip nofun⟩
      exact ⟨.inl (by decide), .inr ⟨['1'], [], [], rfl, by decide, .inl rfl, .inl rfl⟩⟩
  | some limit =>
    cases skip with
    | none => exact stand_clause (.inl rfl) limit nofun
    | some skip => exact stand_append.2 ⟨stand_clause (.inl rfl) limit (ends_cons (by decide)), stand_clause (.inr rfl) skip nofun⟩

theorem stand_keys (r : Resolver) (keys : List SortKey) (rest : List Char) : Stand rest (keys.flatMap (SortKey.tokens r)) := by
  induction keys with
  | nil => trivial
  | cons key keys ih => exact stand_append.2 ⟨key.stand r _, ih⟩

theorem stand_tokens (l : Listing) (r : Resolver) : Stand [] (l.tokens r) := by
  have page : Ends Sql.isWordChar (l.pageTokens.flatMap Token.text ++ []) := by
    obtain ⟨sort, limit, skip⟩ := l
    cases limit with
    | none =>
      cases skip with
      | none => exact nofun
      | some skip => exact ends_cons (by decide)
    | some limit => cases skip <;> exact ends_cons (by decide)
  refine stand_append.2 ⟨?_, stand_append.2 ⟨stand_keys r _ _, stand_append.2 ⟨?_, l.stand_page⟩⟩⟩
  · refine stand_space (ends_cons (by decide)) ⟨⟨_, _, rfl, by decide⟩, ends_cons (by decide),
      stand_space (ends_cons (by decide)) ⟨⟨_, _, rfl, by decide⟩, ?_, trivial⟩⟩
    cases l.keys <;> exact ends_cons (by decide)
  · exact stand_space (ends_cons (by decide)) ⟨⟨_, _, rfl, by decide⟩, ends_cons (by decide),
      stand_space (ends_cons (by decide)) ⟨⟨_, _, rfl, by decide⟩, page.imp fun d goes => by simpa [Token.takesIn] using goes, trivial⟩⟩

theorem isConstant_clause {word : String} (which : word = "LIMIT" ∨ word = "OFFSET") (n : Nat) :
    (clauseTokens word n).all Token.isConstant = true := by
  rcases which with rfl | rfl
  all_goals
    simp only [clauseTokens, List.all_cons, List.all_nil, isConstant_natText]
    decide

theorem isConstant_tokens (l : Listing) (r : Resolver) : (l.tokens r).all Token.isConstant = true := by
  have keys : (l.keys.flatMap (SortKey.tokens r)).all Token.isConstant = true := by
    rw [List.all_flatMap, List.all_eq_true]
    intro key _
    have direction : [.space, ⟨.word, key.direction.text.toList⟩, ⟨.symbol, [',']⟩].all Token.isConstant = true := by
      cases key.direction <;> decide
    rw [SortKey.tokens, List.all_cons, List.all_append, isConstant_operand, direction]
    decide
  have page : l.pageTokens.all Token.isConstant = true := by
    obtain ⟨sort, limit, skip⟩ := l
    cases limit with
    | none =>
      cases skip with
      | none => rfl
      | some skip =>
        rw [pageTokens, List.all_append, isConstant_clause (.inr rfl)]
        decide
    | some limit =>
      cases skip with
      | none => exact isConstant_clause (.inl rfl) limit
      | some skip =>
        rw [pageTokens, List.all_append, isConstant_clause (.inl rfl), isConstant_clause (.inr rfl)]
        rfl
  rw [tokens, List.all_append, List.all_append, List.all_append, keys, page]
  decide

/-- The lexemes of order and page. -/
def lexemes (l : Listing) (r : Resolver) : List Lexeme := constants (l.tokens r)

theorem lexemes_eq_cons (l : Listing) (r : Resolver) : ∃ ls, l.lexemes r = .word "ORDER" :: ls := ⟨_, rfl⟩

/-- The engine takes the text whole. -/
theorem untilNul_text (l : Listing) (r : Resolver) : Like.untilNul (l.text r) = (l.tokens r).flatMap Token.text := by
  have plain : '\x00' ∉ (l.text r).toList := fun mem => by
    rw [← text_tokens] at mem
    obtain ⟨t, there, inside⟩ := List.mem_flatMap.1 mem
    have constant := List.all_eq_true.1 (l.isConstant_tokens r) t there
    simp [Token.isConstant, inside] at constant
  rw [text_tokens, Raw.untilNul_of_not_mem plain]

/-- The engine reads the same order and page, whatever places for values there are before them. -/
theorem lexemesFrom_text (l : Listing) (r : Resolver) (s : Numbering) :
    lexemesFrom s (Sql.tokens (Like.untilNul (l.text r))) = some (l.lexemes r, s) := by
  have whole := tokens_of_stand (l.stand_tokens r)
  rw [show Sql.tokens [] = [] by rw [Sql.tokens], List.append_nil, List.append_nil] at whole
  rw [untilNul_text, whole, ← List.append_nil (l.tokens r), lexemesFrom_constants (l.isConstant_tokens r)]
  simp [lexemesFrom, lexemes]

end Listing

end Dossier
