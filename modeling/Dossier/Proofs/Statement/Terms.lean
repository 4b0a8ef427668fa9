import Dossier.Proofs.Field.Spliced
import Dossier.Proofs.Statement.Placeholders

/-!
# Terms as the engine's lexemes

The text of a compiled filter is made of whole tokens (`Standing`): a term's operand, words and symbols with blanks around
them, and a `?` for each value. The engine numbers these from left to right, so it reads every term as the same lexemes with
the next numbers (`Term.lexemesFrom_tokens`), and the clause of a filter as those of its terms with `AND` between them
(`Predicate.lexemes?_whereText`).
-/

namespace Dossier

open Text Sql Raw

variable {rest cs : List Char} {ts us : List Token} {t : Token} {ws : List String}

namespace Sql

/-! ## Tokens that stand -/

/-- The place of a value. -/
def Token.mark : Token := ⟨.variable, ['?']⟩

/-- Words with a blank before each. -/
def spaced (ws : List String) : List Token := ws.flatMap fun w => [.space, ⟨.word, w.toList⟩]

/-- Tokens that the engine takes one after the other before a rest. -/
def Standing (rest : List Char) : List Token → Prop
  | [] => True
  | t :: ts => t.Stands (ts.flatMap Token.text ++ rest) ∧ Standing rest ts

theorem tokens_of_standing (h : Standing rest ts) : tokens (ts.flatMap Token.text ++ rest) = ts ++ tokens rest := by
  induction ts with
  | nil => rfl
  | cons t ts ih =>
    rw [List.flatMap_cons, List.append_assoc, tokens_of_stands h.1, ih h.2]
    rfl

theorem standing_append : Standing rest (ts ++ us) ↔ Standing (us.flatMap Token.text ++ rest) ts ∧ Standing rest us := by
  induction ts with
  | nil => simp [Standing]
  | cons t ts ih => simp [Standing, ih, and_assoc]

theorem Standing.of_stand (h : Stand rest ts) : Standing rest ts := by
  induction ts with
  | nil => trivial
  | cons t ts ih => exact ⟨h.1.stands h.2.1, ih h.2.2⟩

/-- A place ends before everything but a digit. -/
theorem stands_mark (ends : Ends Char.isDigit rest) : Token.mark.Stands rest := by
  refine ⟨'?', [], rfl, ?_⟩
  show (TokenKind.variable, runLength Char.isDigit rest) = _
  rw [runLength_of_ends ends]
  rfl

/-- A blank, a comma or a closing parenthesis follows, or nothing. -/
def Gap (rest : List Char) : Prop := Ends (fun d => !(d == ' ' || d == ',' || d == ')')) rest

theorem gap_nil : Gap [] := fun _ first => nomatch first

theorem gap_cons {d : Char} (which : d = ' ' ∨ d = ',' ∨ d = ')') : Gap (d :: rest) :=
  ends_cons (by rcases which with rfl | rfl | rfl <;> decide)

/-- What no blank, comma or parenthesis passes ends at a gap. -/
theorem Gap.ends (gap : Gap rest) {p : Char → Bool} (blank : p ' ' = false) (comma : p ',' = false) (close : p ')' = false) :
    Ends p rest := by
  intro d first
  have which : d = ' ' ∨ d = ',' ∨ d = ')' := by simpa [or_iff_not_imp_left] using gap d first
  rcases which with rfl | rfl | rfl <;> assumption

theorem Gap.takesIn_word (gap : Gap rest) : Ends (⟨.word, cs⟩ : Token).takesIn rest := by
  have other : Sql.isWordChar ' ' = false ∧ Sql.isWordChar ',' = false ∧ Sql.isWordChar ')' = false := by decide
  exact gap.ends (by simp [Token.takesIn, other]) (by simp [Token.takesIn, other]) (by simp [Token.takesIn, other])

/-- The words of compiled filters. -/
def filterWords : List String := ["AND", "AS", "ESCAPE", "IN", "IS", "LIKE", "NOT", "NULL", "REAL", "WHERE"]

theorem formed_filterWord : ∀ w ∈ filterWords, ∃ c cs, w.toList = c :: cs ∧ isWordFirst c = true ∧ cs.all Sql.isWordChar = true
    ∧ Value.isPadding c = false := by
  simp only [filterWords, List.forall_mem_cons]
  exact ⟨⟨_, _, rfl, by decide⟩, ⟨_, _, rfl, by decide⟩, ⟨_, _, rfl, by decide⟩, ⟨_, _, rfl, by decide⟩, ⟨_, _, rfl, by decide⟩,
    ⟨_, _, rfl, by decide⟩, ⟨_, _, rfl, by decide⟩, ⟨_, _, rfl, by decide⟩, ⟨_, _, rfl, by decide⟩, ⟨_, _, rfl, by decide⟩, by simp⟩

/-- Words with blanks before them stand before a gap. -/
theorem stand_spaced (gap : Gap rest) (known : ∀ w ∈ ws, w ∈ filterWords) : Stand rest (spaced ws) := by
  induction ws with
  | nil => trivial
  | cons w ws ih =>
    obtain ⟨here, later⟩ := List.forall_mem_cons.1 known
    obtain ⟨c, cs, text, first, all, starts⟩ := formed_filterWord w here
    have ends : Ends (⟨.word, w.toList⟩ : Token).takesIn ((spaced ws).flatMap Token.text ++ rest) := by
      cases ws with
      | nil => exact gap.takesIn_word
      | cons => exact (gap_cons (.inl rfl)).takesIn_word
    refine stand_append.2 ⟨stand_space ?_ ⟨⟨c, cs, text, first, all⟩, ends, trivial⟩, ih later⟩
    rw [List.flatMap_singleton, text]
    exact ends_cons starts

/-! ## Lexemes -/

theorem lexemesFrom_space (s : Numbering) : lexemesFrom s (.space :: ts) = lexemesFrom s ts := by
  rw [Token.space, lexemesFrom]

theorem lexemesFrom_mark (ts : List Token) {n : Nat} (room : n < limits.values) (names : List (List Char × Nat)) :
    lexemesFrom ⟨n, names⟩ (.mark :: ts) = (lexemesFrom ⟨n + 1, names⟩ ts).map fun p => (.param n :: p.1, p.2) := by
  have assigned : (⟨n, names⟩ : Numbering).assign ['?'] = some (n + 1, ⟨n + 1, names⟩) := if_pos room
  rw [Token.mark, lexemesFrom, assigned]
  rfl

theorem lexemesFrom_word (s : Numbering) (w : String) :
    lexemesFrom s (⟨.word, w.toList⟩ :: ts) = (lexemesFrom s ts).map fun p => (.word w :: p.1, p.2) :=
  lexemesFrom_cons s (by rw [Token.lexeme?, String.ofList_toList])

theorem lexemesFrom_symbol (s : Numbering) (w : String) :
    lexemesFrom s (⟨.symbol, w.toList⟩ :: ts) = (lexemesFrom s ts).map fun p => (.symbol w :: p.1, p.2) :=
  lexemesFrom_cons s (by rw [Token.lexeme?, String.ofList_toList])

theorem lexemesFrom_spaced (s : Numbering) (ws : List String) :
    lexemesFrom s (spaced ws ++ ts) = (lexemesFrom s ts).map fun p => (ws.map .word ++ p.1, p.2) := by
  induction ws with
  | nil => simp [spaced]
  | cons w ws ih =>
    show lexemesFrom s (.space :: ⟨.word, w.toList⟩ :: (spaced ws ++ ts)) = _
    rw [lexemesFrom_space, lexemesFrom_word, ih, Option.map_map]
    rfl

end Sql

/-! ## Operands -/

namespace Operand

/-- The lexemes of an operand. -/
def lexemes : Operand → List Lexeme
  | .system c => [.word c.name]
  | .promoted column => [.quoted column true]
  | .extract path =>
    [.word "json_extract", .symbol "(", .word bodyColumn, .symbol ",", .string path.jsonPath, .symbol ")"]

theorem constants_tokens (x : Operand) : constants x.tokens = x.lexemes := by
  cases x with
  | system c => cases c <;> rfl
  | promoted column =>
    rw [tokens, constants, List.filterMap_cons, lexeme?_quoteName]
    rfl
  | extract path =>
    rw [tokens, extractionTokens, tokens_bodyColumn.1]
    simp only [List.cons_append, List.nil_append, constants, List.filterMap_cons, lexeme?_literal]
    rfl

theorem lexemesFrom_tokens (x : Operand) (s : Numbering) :
    lexemesFrom s (x.tokens ++ ts) = (lexemesFrom s ts).map fun p => (x.lexemes ++ p.1, p.2) := by
  cases x with
  | system c => exact lexemesFrom_word s c.name
  | promoted column => exact lexemesFrom_cons s (lexeme?_quoteName column)
  | extract path =>
    have meaning := (extract path).constants_tokens
    rw [tokens] at meaning
    rw [tokens, lexemesFrom_constants (isConstant_extraction path), meaning]

end Operand

/-! ## Terms -/

/-- The places of values with commas between them. -/
def marksOf : List Value → List Token
  | [] => []
  | [_] => [.mark]
  | _ :: v :: vs => .mark :: ⟨.symbol, [',']⟩ :: .space :: marksOf (v :: vs)

/-- Their lexemes, numbered on from `n`. -/
def placesOf (n : Nat) : List Value → List Lexeme
  | [] => []
  | [_] => [.param n]
  | _ :: v :: vs => .param n :: .symbol "," :: placesOf (n + 1) (v :: vs)

theorem text_marksOf (vs : List Value) : (marksOf vs).flatMap Token.text = (commaList (vs.map fun _ => "?")).toList := by
  induction vs with
  | nil => rfl
  | cons v vs ih =>
    cases vs with
    | nil =>
      rw [List.map_singleton, commaList, joinWith_singleton]
      rfl
    | cons w vs =>
      rw [List.map_cons, List.map_cons, commaList, joinWith_cons_cons, ← List.map_cons (f := fun _ => "?"), ← commaList,
        String.toList_append, ← ih]
      rfl

theorem standing_marksOf (vs : List Value) : Standing (')' :: rest) (marksOf vs) := by
  induction vs with
  | nil => trivial
  | cons v vs ih =>
    cases vs with
    | nil => exact ⟨stands_mark (ends_cons (by decide)), trivial⟩
    | cons w vs =>
      have comma : Stand ((marksOf (w :: vs)).flatMap Token.text ++ ')' :: rest) [⟨.symbol, [',']⟩, .space] := by
        refine ⟨⟨_, _, rfl, by decide⟩, ends_cons (by decide), stand_space ?_ trivial⟩
        cases vs <;> exact ends_cons (by decide)
      exact ⟨stands_mark (ends_cons (by decide)), standing_append.2 ⟨.of_stand comma, ih⟩⟩

theorem lexemesFrom_marksOf {n : Nat} (names : List (List Char × Nat)) {vs : List Value} (room : n + vs.length ≤ limits.values) :
    lexemesFrom ⟨n, names⟩ (marksOf vs ++ ts)
      = (lexemesFrom ⟨n + vs.length, names⟩ ts).map fun p => (placesOf n vs ++ p.1, p.2) := by
  induction vs generalizing n with
  | nil => simp [marksOf, placesOf]
  | cons v vs ih =>
    rw [List.length_cons] at room
    have first : n < limits.values := by omega
    have later := ih (n := n + 1) (by omega)
    cases vs with
    | nil => exact lexemesFrom_mark _ first names
    | cons w vs =>
      have comma (s : Numbering) (us : List Token) : lexemesFrom s (⟨.symbol, [',']⟩ :: us)
          = (lexemesFrom s us).map fun p => (.symbol "," :: p.1, p.2) := lexemesFrom_cons s rfl
      rw [List.length_cons] at later
      simp only [marksOf, List.cons_append, lexemesFrom_mark _ first, comma, lexemesFrom_space, later, Option.map_map, List.length_cons]
      rw [Nat.add_right_comm n 1]
      rfl

namespace Term

/-- The words before the list of a membership. -/
def memberWords (negated : Bool) : List String := if negated then ["NOT", "IN"] else ["IN"]

/-- The tokens of a term. -/
def tokens : Term → List Token
  | isNull x => x.tokens ++ spaced ["IS", "NULL"]
  | notNull x => x.tokens ++ spaced ["IS", "NOT", "NULL"]
  | compare x op _ => x.tokens ++ [.space, ⟨.symbol, op.text.toList⟩, .space, .mark]
  | compareReal x op _ => [⟨.word, "CAST".toList⟩, ⟨.symbol, "(".toList⟩] ++ (x.tokens ++ (spaced ["AS", "REAL"]
      ++ [⟨.symbol, ")".toList⟩, .space, ⟨.symbol, op.text.toList⟩, .space, .mark]))
  | member x negated vs => x.tokens ++ (spaced (memberWords negated) ++ ([.space, ⟨.symbol, "(".toList⟩] ++ (marksOf vs
      ++ [⟨.symbol, ")".toList⟩])))
  | like x _ => x.tokens ++ (spaced ["LIKE"] ++ ([.space, .mark] ++ (spaced ["ESCAPE"] ++ [.space, ⟨.string, "'\\'".toList⟩])))
  | constant b => [⟨.number, (Listing.natText (if b then 1 else 0)).toList⟩]

/-- The lexemes of a term, its values numbered on from `n`. -/
def lexemes (n : Nat) : Term → List Lexeme
  | isNull x => x.lexemes ++ [.word "IS", .word "NULL"]
  | notNull x => x.lexemes ++ [.word "IS", .word "NOT", .word "NULL"]
  | compare x op _ => x.lexemes ++ [.symbol op.text, .param n]
  | compareReal x op _ => [.word "CAST", .symbol "("] ++ (x.lexemes ++ [.word "AS", .word "REAL", .symbol ")", .symbol op.text, .param n])
  | member x negated vs => x.lexemes ++ ((memberWords negated).map .word ++ (.symbol "(" :: (placesOf n vs ++ [.symbol ")"])))
  | like x _ => x.lexemes ++ [.word "LIKE", .param n, .word "ESCAPE", .string "\\"]
  | constant b => [.whole (if b then 1 else 0)]

theorem text_tokens (t : Term) : t.tokens.flatMap Token.text = t.text.toList := by
  cases t with
  | isNull x | notNull x | compare x op v | compareReal x op v | like x pattern =>
    simp [tokens, text, spaced, Token.space, Token.mark, Operand.text_tokens, String.toList_append]
  | member x negated vs =>
    cases negated <;>
      simp [tokens, text, memberWords, spaced, Token.space, Operand.text_tokens, text_marksOf, String.toList_append]
  | constant b => cases b <;> rfl

theorem lexemesFrom_tokens {t : Term} (ts : List Token) {n : Nat} (room : n + t.params.length ≤ limits.values)
    (names : List (List Char × Nat)) :
    lexemesFrom ⟨n, names⟩ (t.tokens ++ ts)
      = (lexemesFrom ⟨n + t.params.length, names⟩ ts).map fun p => (t.lexemes n ++ p.1, p.2) := by
  cases t with
  | isNull x | notNull x =>
    simp only [tokens, lexemes, List.append_assoc, List.cons_append, List.nil_append, Operand.lexemesFrom_tokens, lexemesFrom_spaced,
      Option.map_map]
    rfl
  | compare x op v | compareReal x op v =>
    have mark := lexemesFrom_mark ts (show n < limits.values from room) names
    simp only [tokens, lexemes, List.append_assoc, List.cons_append, List.nil_append, Operand.lexemesFrom_tokens, lexemesFrom_spaced,
      lexemesFrom_space, lexemesFrom_word, lexemesFrom_symbol, mark, Option.map_map]
    rfl
  | like x pattern =>
    have mark (us : List Token) := lexemesFrom_mark us (show n < limits.values from room) names
    have escape (s : Numbering) (us : List Token) : lexemesFrom s (⟨.string, "'\\'".toList⟩ :: us)
        = (lexemesFrom s us).map fun p => (.string "\\" :: p.1, p.2) := lexemesFrom_cons s rfl
    simp only [tokens, lexemes, List.append_assoc, List.cons_append, List.nil_append, Operand.lexemesFrom_tokens, lexemesFrom_spaced,
      lexemesFrom_space, mark, escape, Option.map_map]
    rfl
  | member x negated vs =>
    simp only [tokens, lexemes, List.append_assoc, List.cons_append, List.nil_append, Operand.lexemesFrom_tokens, lexemesFrom_spaced,
      lexemesFrom_space, lexemesFrom_symbol, lexemesFrom_marksOf names (show n + vs.length ≤ limits.values from room),
      Option.map_map]
    rfl
  | constant b => cases b <;> exact lexemesFrom_cons _ rfl

/-- A comparison with a value stands before a gap. -/
theorem standing_comparison (op : Value.Comparison) (gap : Gap rest) :
    Standing rest [.space, ⟨.symbol, op.text.toList⟩, .space, .mark] := by
  have symbol : Stand ('?' :: rest) [.space, ⟨.symbol, op.text.toList⟩, .space] := by
    cases op <;> exact stand_space (ends_cons (by decide)) ⟨⟨_, _, rfl, by decide⟩, ends_cons (by decide),
      stand_space (ends_cons (by decide)) trivial⟩
  have mark : Standing rest [.mark] := ⟨stands_mark (gap.ends (by decide) (by decide) (by decide)), trivial⟩
  exact standing_append.2 ⟨.of_stand symbol, mark⟩

/-- A symbol that begins no other token. -/
theorem stand_alone {s : String} {c : Char} (text : s.toList = [c]) (mem : [c] ∈ symbols)
    (alone : ∀ a ∈ symbols, a.head? = some c → a = [c]) (plain : ['-', '/', '.'].contains c = false) (rest : List Char) :
    Stand rest [⟨.symbol, s.toList⟩] := by
  rw [text]
  exact ⟨⟨_, _, rfl, mem⟩, fun d _ => takesIn_alone d alone plain, trivial⟩

/-- A term stands before a gap. -/
theorem standing (t : Term) (gap : Gap rest) : Standing rest t.tokens := by
  have closing (rest : List Char) : Standing rest [⟨.symbol, ")".toList⟩] :=
    .of_stand (stand_alone rfl (by decide) (by decide) (by decide) rest)
  cases t with
  | isNull x | notNull x =>
    exact standing_append.2 ⟨.of_stand (stand_operand x _), .of_stand (stand_spaced gap (by decide))⟩
  | compare x op v => exact standing_append.2 ⟨.of_stand (stand_operand x _), standing_comparison op gap⟩
  | compareReal x op v =>
    have opening (rest : List Char) : Stand rest [⟨.word, "CAST".toList⟩, ⟨.symbol, "(".toList⟩] :=
      ⟨⟨_, _, rfl, by decide⟩, ends_cons (by decide), stand_alone rfl (by decide) (by decide) (by decide) rest⟩
    exact standing_append.2 ⟨.of_stand (opening _), standing_append.2 ⟨.of_stand (stand_operand x _), standing_append.2
      ⟨.of_stand (stand_spaced (gap_cons (by decide)) (by decide)), standing_append.2 ⟨closing _, standing_comparison op gap⟩⟩⟩⟩
  | member x negated vs =>
    have opening (rest : List Char) : Stand rest [.space, ⟨.symbol, "(".toList⟩] :=
      stand_space (ends_cons (by decide)) (stand_alone rfl (by decide) (by decide) (by decide) rest)
    cases negated <;> exact standing_append.2 ⟨.of_stand (stand_operand x _), standing_append.2
      ⟨.of_stand (stand_spaced (gap_cons (by decide)) (by decide)), standing_append.2 ⟨.of_stand (opening _), standing_append.2
        ⟨standing_marksOf vs, closing _⟩⟩⟩⟩
  | like x pattern =>
    have place (rest : List Char) : Standing (' ' :: rest) [.space, .mark] := by
      have blank : Stand ('?' :: ' ' :: rest) [.space] := stand_space (ends_cons (by decide)) trivial
      exact ⟨blank.1.stands blank.2.1, stands_mark (ends_cons (by decide)), trivial⟩
    have last : Stand rest [.space, ⟨.string, "'\\'".toList⟩] :=
      stand_space (ends_cons (by decide)) ⟨⟨_, _, rfl, by decide⟩, gap.ends rfl rfl rfl, trivial⟩
    exact standing_append.2 ⟨.of_stand (stand_operand x _), standing_append.2 ⟨.of_stand (stand_spaced (gap_cons (by decide)) (by decide)),
      standing_append.2 ⟨place _, standing_append.2 ⟨.of_stand (stand_spaced (gap_cons (by decide)) (by decide)), .of_stand last⟩⟩⟩⟩
  | constant b => exact .of_stand ⟨formed_natText _, gap.ends rfl rfl rfl, trivial⟩

/-- A term begins with no blank. -/
theorem starts (t : Term) (rest : List Char) : Ends Value.isPadding (t.tokens.flatMap Token.text ++ rest) := by
  rw [text_tokens]
  cases t with
  | isNull x | notNull x | compare x op v | member x negated vs | like x pattern =>
    simp only [text, String.toList_append, List.append_assoc]
    exact x.head?_text _
  | compareReal x op v =>
    simp only [text, String.toList_append, List.append_assoc]
    exact ends_cons (by decide)
  | constant b => cases b <;> exact ends_cons (by decide)

theorem nul_not_mem_text {t : Term} (plain : ∀ x ∈ t.operand?, '\x00' ∉ x.text.toList) : '\x00' ∉ t.text.toList := by
  have comparison (op : Value.Comparison) : '\x00' ∉ op.text.toList := by cases op <;> decide
  have places (vs : List Value) : '\x00' ∉ (commaList (vs.map fun _ => "?")).toList := fun mem => by
    rcases mem_joinWith mem with comma | ⟨part, there, inside⟩
    · exact absurd comma (by decide)
    · obtain ⟨v, -, rfl⟩ := List.mem_map.1 there
      exact absurd inside (by decide)
  cases t with
  | isNull x | notNull x | compare x op v | compareReal x op v | like x pattern =>
    simp [text, String.toList_append, plain x rfl, comparison]
  | member x negated vs =>
    simp only [text, String.toList_append, List.mem_append, plain x rfl, places, or_false, false_or]
    cases negated <;> decide
  | constant b => cases b <;> decide

end Term

/-! ## Predicates -/

namespace Predicate

/-- The tokens of further terms, with `AND` before each. -/
def andTokens : Predicate → List Token
  | [] => []
  | t :: ts => spaced ["AND"] ++ (.space :: (t.tokens ++ andTokens ts))

/-- The tokens of the clause. -/
def tokens : Predicate → List Token
  | [] => []
  | t :: ts => spaced ["WHERE"] ++ (.space :: (t.tokens ++ andTokens ts))

/-- The lexemes of further terms, their values numbered on from `n`. -/
def andLexemes (n : Nat) : Predicate → List Lexeme
  | [] => []
  | t :: ts => .word "AND" :: (t.lexemes n ++ andLexemes (n + t.params.length) ts)

/-- The lexemes of the condition, its values numbered on from `n`. -/
def lexemes (n : Nat) : Predicate → List Lexeme
  | [] => []
  | t :: ts => t.lexemes n ++ andLexemes (n + t.params.length) ts

variable {p : Predicate}

theorem text_andTokens (t : Term) (ts : Predicate) :
    (t.tokens ++ andTokens ts).flatMap Token.text = (Predicate.text (t :: ts)).toList := by
  induction ts generalizing t with
  | nil => simp [andTokens, text, joinWith_singleton, Term.text_tokens]
  | cons u ts ih =>
    have later := ih u
    rw [text] at later ⊢
    rw [List.map_cons, List.map_cons, joinWith_cons_cons, ← List.map_cons, String.toList_append, ← later, List.flatMap_append,
      Term.text_tokens, String.toList_append, List.append_assoc]
    rfl

/-- A term and the terms after it stand before a gap, if the terms behind the first one do. -/
theorem standing_terms (t : Term) {ts : Predicate} (gap : Gap rest) (later : Standing rest (andTokens ts)) :
    Standing rest (t.tokens ++ andTokens ts) := by
  have between : Gap ((andTokens ts).flatMap Token.text ++ rest) := by
    cases ts with
    | nil => exact gap
    | cons => exact gap_cons (.inl rfl)
  exact standing_append.2 ⟨t.standing between, later⟩

/-- So they do with a word before them. -/
theorem standing_clause {word : String} (known : word ∈ filterWords) (t : Term) {ts : Predicate} (gap : Gap rest)
    (later : Standing rest (andTokens ts)) : Standing rest (spaced [word] ++ (.space :: (t.tokens ++ andTokens ts))) := by
  have space : Stand ((t.tokens ++ andTokens ts).flatMap Token.text ++ rest) [.space] := by
    refine stand_space ?_ trivial
    rw [List.flatMap_nil, List.nil_append, List.flatMap_append, List.append_assoc]
    exact t.starts _
  refine standing_append.2 ⟨.of_stand (stand_spaced (gap_cons (.inl rfl)) (List.forall_mem_singleton.2 known)),
    space.1.stands space.2.1, standing_terms t gap later⟩

theorem standing_andTokens (p : Predicate) (gap : Gap rest) : Standing rest (andTokens p) := by
  induction p with
  | nil => trivial
  | cons t ts ih => exact standing_clause (by decide) t gap ih

theorem lexemesFrom_andTokens {p : Predicate} {n : Nat} (room : n + p.params.length ≤ limits.values)
    (names : List (List Char × Nat)) : lexemesFrom ⟨n, names⟩ (andTokens p ++ us)
      = (lexemesFrom ⟨n + p.params.length, names⟩ us).map fun q => (andLexemes n p ++ q.1, q.2) := by
  induction p generalizing n with
  | nil => simp [andTokens, andLexemes, params]
  | cons t ts ih =>
    have count : params (t :: ts) = t.params ++ params ts := rfl
    rw [count, List.length_append] at room
    have first := Term.lexemesFrom_tokens (andTokens ts ++ us) (show n + t.params.length ≤ limits.values by omega) names
    have later := ih (n := n + t.params.length) (by omega)
    simp only [andTokens, andLexemes, List.append_assoc, List.cons_append, lexemesFrom_spaced, lexemesFrom_space, first, later,
      Option.map_map, count, List.length_append, ← Nat.add_assoc]
    rfl

end Predicate

end Dossier
