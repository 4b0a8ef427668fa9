import Dossier.Proofs.Statement.Terms

/-!
# Texts as lexemes

A statement is put together of fixed phrases and of texts that a filter, a listing or changes are written as.
`Spells rest text count ls` says what the engine reads in such a piece before the rest of the statement, so that pieces
are read one by one (`Spells.append`) and a whole statement as the lexemes of its pieces (`Spells.lexemes?_eq`).
-/

namespace Dossier

open Text Sql Raw

variable {rest cs : List Char} {ts us : List Token} {t : Token} {a b : String} {k m : Nat} {ls ms : Nat → List Lexeme}
  {ls' : List Lexeme}

namespace Sql

/-- Before the rest the engine reads the text as lexemes, of which so many are places of values; these are numbered on
from `n`. -/
structure Spells (rest : List Char) (text : String) (count : Nat) (ls : Nat → List Lexeme) : Prop where
  plain : '\x00' ∉ text.toList
  reads : ∀ n names, n + count ≤ limits.values → lexemesFrom ⟨n, names⟩ (tokens (text.toList ++ rest))
    = (lexemesFrom ⟨n + count, names⟩ (tokens rest)).map fun p => (ls n ++ p.1, p.2)

namespace Spells

/-- Nothing is read as nothing. -/
theorem empty : Spells rest "" 0 fun _ => [] where
  plain := by decide
  reads n names _ := by simp

theorem append (first : Spells (b.toList ++ rest) a k ls) (second : Spells rest b m ms) :
    Spells rest (a ++ b) (k + m) fun n => ls n ++ ms (n + k) where
  plain mem := by
    rw [String.toList_append, List.mem_append] at mem
    exact mem.elim first.plain second.plain
  reads n names room := by
    have here := first.reads n names (by omega)
    have later := second.reads (n + k) names (by omega)
    rw [String.toList_append, List.append_assoc, here, later, Option.map_map, Nat.add_assoc]
    simp [Function.comp_def]

theorem congr (h : Spells rest a k ls) (same : ∀ n, ls n = ms n) : Spells rest a k ms := by
  rwa [← show ls = ms from funext same]

theorem count (h : Spells rest a k ls) (same : k = m) : Spells rest a m ls := same ▸ h

/-- A whole text is read as its lexemes, if the engine takes so many values. -/
theorem lexemes?_eq (spells : Spells [] a k ls) (room : k ≤ limits.values) : lexemes? a = some (ls 0, k) := by
  have read := spells.reads 0 [] (by omega)
  have nothing (s : Numbering) : lexemesFrom s (tokens []) = some ([], s) := by
    rw [show tokens [] = [] by rw [tokens], lexemesFrom]
  rw [List.append_nil, nothing] at read
  unfold lexemes?
  rw [untilNul_of_not_mem spells.plain, Numbering.start, read]
  simp

/-- A text of tokens that stand before the rest. -/
theorem of_standing (ts : List Token) (text : ts.flatMap Token.text = a.toList) (plain : '\x00' ∉ a.toList) (standing : Standing rest ts)
    (reads : ∀ us n names, n + k ≤ limits.values → lexemesFrom ⟨n, names⟩ (ts ++ us)
      = (lexemesFrom ⟨n + k, names⟩ us).map fun p => (ls n ++ p.1, p.2)) : Spells rest a k ls where
  plain := plain
  reads n names room := by rw [← text, tokens_of_standing standing, reads _ n names room]

theorem nul_not_mem_of_isConstant (text : ts.flatMap Token.text = a.toList) (all : ts.all Token.isConstant = true) :
    '\x00' ∉ a.toList := by
  rw [← text]
  intro mem
  obtain ⟨t, there, inside⟩ := List.mem_flatMap.1 mem
  have constant := List.all_eq_true.1 all t there
  simp [Token.isConstant, inside] at constant

/-- A text of tokens none of which is the place of a value. -/
theorem of_constants (ts : List Token) (text : ts.flatMap Token.text = a.toList) (all : ts.all Token.isConstant = true) (stand : Stand rest ts) :
    Spells rest a 0 fun _ => constants ts :=
  of_standing ts text (nul_not_mem_of_isConstant text all) (.of_stand stand) fun us _ _ _ => lexemesFrom_constants all us _

end Spells

/-! ## Phrases -/

/-- The tokens of a text that is no longer than the fuel. -/
def scan : (fuel : Nat) → List Char → List Token
  | 0, _ | _, [] => []
  | fuel + 1, c :: cs => ⟨(extent c cs).1, c :: cs.take (extent c cs).2⟩ :: scan fuel (cs.drop (extent c cs).2)

/-- A blank, a word, a digit, a text between quotes or a symbol. -/
def Token.isFormed (t : Token) : Bool :=
  match t.kind, t.text with
  | .blank, [c] => c == ' '
  | .word, c :: cs => isWordFirst c && cs.all isWordChar
  | .number, [c] => c.isDigit
  | .string, c :: cs => c == '\'' && quoteLength? c cs == some cs.length
  | .symbol, cs => symbols.contains cs
  | _, _ => false

/-- Formed tokens of which none goes on with what the next one begins with. -/
def isCoherent : List Token → Bool
  | [] => true
  | t :: ts => t.isFormed && (ts.head?.bind fun u => u.text.head?).all (fun c => !t.takesIn c) && isCoherent ts

/-- The tokens of a phrase, a text of words, digits, symbols and texts between quotes. -/
def phraseTokens (a : String) : List Token := scan a.length a.toList

/-- What a phrase is read as. -/
def phrase (a : String) : List Lexeme := constants (phraseTokens a)

/-- The lexeme is no double, so that it is like no other one. -/
def Lexeme.isDiscrete : Lexeme → Bool
  | .real _ => false
  | _ => true

theorem Lexeme.eq_of_beq {l l' : Lexeme} (same : (l == l') = true) (discrete : l'.isDiscrete = true) : l = l' := by
  cases l <;> cases l'
  case real.real => cases discrete
  case quoted.quoted s d s' d' =>
    obtain ⟨text, isDouble⟩ := Bool.and_eq_true_iff.1 (show (s == s' && d == d') = true from same)
    rw [LawfulBEq.eq_of_beq text, LawfulBEq.eq_of_beq isDouble]
  case word.word s s' | string.string s s' | symbol.symbol s s' => rw [LawfulBEq.eq_of_beq (show (s == s') = true from same)]
  case whole.whole n n' | param.param n n' => rw [LawfulBEq.eq_of_beq (show (n == n') = true from same)]
  all_goals cases same

theorem Lexeme.eq_of_beq_list {ls : List Lexeme} (same : (ls == ls') = true) (discrete : ls'.all Lexeme.isDiscrete = true) :
    ls = ls' := by
  induction ls generalizing ls' with
  | nil =>
    cases ls' with
    | nil => rfl
    | cons => cases same
  | cons l ls ih =>
    cases ls' with
    | nil => cases same
    | cons l' ls' =>
      obtain ⟨first, later⟩ := Bool.and_eq_true_iff.1 (show (l == l' && ls == ls') = true from same)
      obtain ⟨here, others⟩ := Bool.and_eq_true_iff.1 (List.all_cons ▸ discrete)
      rw [Lexeme.eq_of_beq first here, ih later others]

/-- What a phrase is read as, by comparing. -/
theorem phrase_eq (same : (phrase a == ls' && ls'.all Lexeme.isDiscrete) = true) : phrase a = ls' :=
  have ⟨same, discrete⟩ := Bool.and_eq_true_iff.1 same
  Lexeme.eq_of_beq_list same discrete

/-- The text is a phrase. -/
def isPhrase (a : String) : Bool :=
  (phraseTokens a).flatMap Token.text == a.toList && (phraseTokens a).all Token.isConstant && isCoherent (phraseTokens a)

theorem Token.isFormed_iff (h : t.isFormed = true) : t.IsFormed := by
  obtain ⟨kind, text⟩ := t
  unfold Token.isFormed at h
  split at h
  · obtain rfl : kind = .blank := ‹_›
    obtain rfl : text = _ := ‹_›
    exact ⟨_, [], rfl, by rw [beq_iff_eq.1 h]; decide, rfl⟩
  · obtain rfl : kind = .word := ‹_›
    obtain rfl : text = _ := ‹_›
    exact ⟨_, _, rfl, Bool.and_eq_true_iff.1 h⟩
  · obtain rfl : kind = .number := ‹_›
    obtain rfl : text = _ := ‹_›
    refine ⟨_, [], rfl, .inl h, .inr ⟨[_], [], [], rfl, ?_, .inl rfl, .inl rfl⟩⟩
    rw [List.all_cons, isDigitOrSeparator, h]
    rfl
  · obtain rfl : kind = .string := ‹_›
    obtain rfl : text = _ := ‹_›
    rw [Bool.and_eq_true_iff, beq_iff_eq, beq_iff_eq] at h
    obtain ⟨rfl, closed⟩ := h
    exact ⟨_, _, rfl, rfl, closed⟩
  · obtain rfl : kind = .symbol := ‹_›
    rw [List.contains_iff_mem] at h
    have some_ : ∀ s ∈ symbols, s ≠ [] := by decide
    obtain ⟨c, cs, eq⟩ := List.exists_cons_of_ne_nil (some_ _ h)
    exact ⟨c, cs, eq, eq ▸ h⟩
  · cases h

/-- Coherent tokens stand before what the last one does not go on with. -/
theorem stand_of_coherent (coherent : isCoherent ts = true) (ends : ∀ t ∈ ts.getLast?, Ends t.takesIn rest) : Stand rest ts := by
  induction ts with
  | nil => trivial
  | cons t ts ih =>
    rw [isCoherent, Bool.and_eq_true_iff, Bool.and_eq_true_iff] at coherent
    obtain ⟨⟨formed, apart⟩, later⟩ := coherent
    have formed := Token.isFormed_iff formed
    cases ts with
    | nil => exact ⟨formed, ends t rfl, trivial⟩
    | cons u us =>
      have stand := ih later fun v last => ends v last
      obtain ⟨c, cs, text, -⟩ := stand.1
      refine ⟨formed, ?_, stand⟩
      rw [List.flatMap_cons, text]
      refine ends_cons ?_
      simpa [text] using apart

theorem head?_append {c : Char} (starts : a.toList.head? = some c) (b : String) : (a ++ b).toList.head? = some c := by
  rw [String.toList_append, List.head?_append, starts]
  rfl

theorem ends_of_head? {p : Char → Bool} {c : Char} (starts : a.toList.head? = some c) (apart : p c = false) (rest : List Char) :
    Ends p (a.toList ++ rest) := by
  obtain ⟨cs, text⟩ := List.head?_eq_some_iff.1 starts
  rw [text]
  exact ends_cons apart

/-- A text that begins with a blank, a comma or a closing parenthesis is a gap. -/
theorem gap_of_head? {d : Char} (starts : a.toList.head? = some d) (which : d = ' ' ∨ d = ',' ∨ d = ')') (rest : List Char) :
    Gap (a.toList ++ rest) := by
  obtain ⟨cs, text⟩ := List.head?_eq_some_iff.1 starts
  rw [text]
  exact gap_cons which

theorem gap_of_blank (starts : a.toList.head? = some ' ') (rest : List Char) : Gap (a.toList ++ rest) :=
  gap_of_head? starts (.inl rfl) rest

namespace Spells

theorem of_phrase (fixed : isPhrase a = true) (ends : ∀ t ∈ (phraseTokens a).getLast?, Ends t.takesIn rest) :
    Spells rest a 0 fun _ => phrase a := by
  rw [isPhrase, Bool.and_eq_true_iff, Bool.and_eq_true_iff, beq_iff_eq] at fixed
  obtain ⟨⟨text, all⟩, coherent⟩ := fixed
  exact of_constants _ text all (stand_of_coherent coherent ends)

/-- A phrase before a text that begins with a character that its last token does not go on with. -/
theorem before {c : Char} (starts : b.toList.head? = some c)
    (fixed : (isPhrase a && (phraseTokens a).getLast?.all fun t => !t.takesIn c) = true) : Spells (b.toList ++ rest) a 0 fun _ => phrase a := by
  obtain ⟨fixed, apart⟩ := Bool.and_eq_true_iff.1 fixed
  refine of_phrase fixed fun t last => ends_of_head? starts ?_ rest
  rw [Option.mem_def.1 last] at apart
  simpa using apart

/-- A phrase that ends with a blank, before what does not go on with one. -/
theorem spaced (fixed : isPhrase a = true) (last : (phraseTokens a).getLast? = some Token.space) (ends : Ends Value.isPadding rest) :
    Spells rest a 0 fun _ => phrase a := by
  refine of_phrase fixed fun t last' => ?_
  obtain rfl := Option.some.inj (last.symm.trans last')
  exact ends

/-- A phrase at the end. -/
theorem last (fixed : isPhrase a = true) : Spells [] a 0 fun _ => phrase a :=
  of_phrase fixed fun _ _ _ first => nomatch first

/-- A closing parenthesis. -/
theorem close (rest : List Char) : Spells rest ")" 0 fun _ => [.symbol ")"] :=
  of_constants [⟨.symbol, ")".toList⟩] rfl (by decide) (Term.stand_alone rfl (by decide) (by decide) (by decide) rest)

/-- The place of a value. -/
theorem mark (ends : Ends Char.isDigit rest) : Spells rest "?" 1 fun n => [.param n] :=
  of_standing [.mark] rfl (by decide) ⟨stands_mark ends, trivial⟩ fun us _ names room => lexemesFrom_mark us room names

end Spells

/-! ## Lists -/

/-- The lexemes of items with a comma before each, their values numbered on from `n`. -/
def listed {α : Type} (count : α → Nat) (ls : α → Nat → List Lexeme) : List α → Nat → List Lexeme
  | [], _ => []
  | a :: as, n => .symbol "," :: (ls a n ++ listed count ls as (n + count a))

/-- Items before a gap, each of which is read before every gap and begins with no blank. -/
theorem Spells.listed {α : Type} {text : α → String} {count : α → Nat} {ls : α → Nat → List Lexeme} {as : List α} (some_ : as ≠ [])
    (gap : Gap rest) (each : ∀ a ∈ as, ∀ rest, Gap rest → Spells rest (text a) (count a) (ls a))
    (starts : ∀ a ∈ as, ∀ rest, Ends Value.isPadding ((text a).toList ++ rest)) :
    Spells rest (", " ++ commaList (as.map text)) (as.map count).sum (Sql.listed count ls as) := by
  have comma (more : List Char) (next : Ends Value.isPadding more) : Spells more ", " 0 fun _ => phrase ", " :=
    .spaced (by decide) (by decide) next
  induction as with
  | nil => exact absurd rfl some_
  | cons a as ih =>
    obtain ⟨here, later⟩ := List.forall_mem_cons.1 each
    obtain ⟨first, others⟩ := List.forall_mem_cons.1 starts
    cases as with
    | nil =>
      have one := (comma _ (first rest)).append (here rest gap)
      rw [List.map_singleton, commaList, joinWith_singleton]
      refine (one.congr fun n => ?_).count (by simp)
      simp [Sql.listed]
      rfl
    | cons b as =>
      have tail := ih (List.cons_ne_nil b as) later others
      have between : Gap ((", " ++ commaList ((b :: as).map text)).toList ++ rest) :=
        gap_of_head? (head?_append (by decide) _) (.inr (.inl rfl)) rest
      have whole := ((comma _ (first _)).append (here _ between)).append tail
      have text : ", " ++ text a ++ (", " ++ commaList ((b :: as).map text)) = ", " ++ commaList ((a :: b :: as).map text) := by
        simp only [List.map_cons, commaList, joinWith_cons_cons, String.append_assoc]
      rw [text] at whole
      refine (whole.congr fun n => ?_).count (by simp)
      simp [Sql.listed]
      rfl

end Sql

/-! ## Pieces of statements -/

theorem FieldPath.spells_literal (path : FieldPath) (ends : Ends (· == '\'') rest) :
    Spells rest path.literal 0 fun _ => [.string path.jsonPath] := by
  have plain : '\x00' ∉ '\'' :: (path.jsonPath.toList ++ ['\'']) := by simp [nul_not_mem_jsonPath path]
  have constant : (⟨.string, '\'' :: (path.jsonPath.toList ++ ['\''])⟩ : Token).isConstant = true :=
    isConstant_of_lexeme? (lexeme?_literal path) (beq_string path.jsonPath) plain
  have text : [(⟨.string, '\'' :: (path.jsonPath.toList ++ ['\''])⟩ : Token)].flatMap Token.text = path.literal.toList := by
    simp [literal, String.toList_append]
  have spells := Spells.of_constants _ text (by simp [constant])
    ⟨formed_literal path, ends.imp fun d takes => by simpa [Token.takesIn] using takes, trivial⟩
  refine spells.congr fun n => ?_
  simp [constants, lexeme?_literal path]

theorem FieldPath.head?_literal (path : FieldPath) : path.literal.toList.head? = some '\'' :=
  head?_append (head?_append (by decide) _) _

theorem FieldPath.starts_literal (path : FieldPath) (text : String) (rest : List Char) :
    Ends Value.isPadding ((path.literal ++ text).toList ++ rest) :=
  ends_of_head? (head?_append path.head?_literal _) (by decide) rest

/-- A function of what a phrase begins with and of a path. -/
theorem FieldPath.spells_call (path : FieldPath) (front : String)
    (fixed : (isPhrase front && (phraseTokens front).getLast?.all fun t => !t.takesIn '\'') = true) (rest : List Char) :
    Spells rest (front ++ path.literal ++ ")") 0 fun _ => phrase front ++ [.string path.jsonPath, .symbol ")"] := by
  have ends : Ends (· == '\'') (")".toList ++ rest) := ends_cons (by decide)
  have literal := path.spells_literal ends
  have whole := ((Spells.before path.head?_literal fixed).append literal).append (.close rest)
  simpa using whole

theorem CollectionName.spells_quoted (name : CollectionName) (ends : Ends (· == '"') rest) :
    Spells rest name.quoted 0 fun _ => [.quoted name.text true] := by
  have plain : '\x00' ∉ name.text.toList := fun mem => absurd (List.all_eq_true.1 name.plain _ mem) (by decide)
  have plain := nul_not_mem_quoteName plain
  have stand : Stand rest [⟨.quotedName, (quoteName name.text).toList⟩] := by
    refine ⟨formed_quoteName name.text, ends.imp fun d takes => ?_, trivial⟩
    rw [toList_quoteName] at takes
    simp only [Token.takesIn, List.head?_cons, Bool.and_eq_true, beq_iff_eq, Option.some.injEq] at takes
    exact beq_iff_eq.2 takes.1.symm
  refine Spells.of_standing [⟨.quotedName, (quoteName name.text).toList⟩] (by simp [quoted]) plain (.of_stand stand) ?_
  exact fun us n names _ => lexemesFrom_cons _ (lexeme?_quoteName name.text)

namespace Predicate

variable {p : Predicate}

/-- The engine takes the texts of the operands whole. -/
def Plain (p : Predicate) : Prop := ∀ t ∈ p, ∀ x ∈ t.operand?, '\x00' ∉ x.text.toList

theorem Plain.nul_not_mem_text (plain : p.Plain) : '\x00' ∉ p.text.toList := fun mem => by
  rcases mem_joinWith mem with between | ⟨text, there, inside⟩
  · exact absurd between (by decide)
  · obtain ⟨t, term, rfl⟩ := List.mem_map.1 there
    exact Term.nul_not_mem_text (plain t term) inside

/-- The condition of a filter before a gap. -/
theorem spells_text (plain : p.Plain) (some_ : p ≠ []) (gap : Gap rest) : Spells rest p.text p.params.length (p.lexemes ·) := by
  obtain ⟨t, ts, rfl⟩ := List.exists_cons_of_ne_nil some_
  have count : (params (t :: ts)).length = t.params.length + (params ts).length := by simp [params]
  refine .of_standing _ (text_andTokens t ts) plain.nul_not_mem_text (standing_terms t gap (standing_andTokens ts gap)) ?_
  intro us n names room
  rw [count] at room ⊢
  rw [List.append_assoc, Term.lexemesFrom_tokens _ (by omega) names, lexemesFrom_andTokens (by omega) names, Option.map_map,
    Nat.add_assoc]
  simp [lexemes, Function.comp_def]

/-- The lexemes of the clause of a filter. -/
def whereLexemes (p : Predicate) (n : Nat) : List Lexeme :=
  match p with
  | [] => []
  | t :: ts => .word "WHERE" :: lexemes n (t :: ts)

theorem starts_text (t : Term) (ts : Predicate) : Ends Value.isPadding ((text (t :: ts)).toList ++ rest) := by
  rw [← text_andTokens, List.flatMap_append, List.append_assoc]
  exact t.starts _

/-- The clause of a filter before a gap. -/
theorem spells_whereText (plain : p.Plain) (gap : Gap rest) : Spells rest p.whereText p.params.length p.whereLexemes := by
  cases p with
  | nil => exact .empty
  | cons t ts =>
    have word : Spells ((text (t :: ts)).toList ++ rest) " WHERE " 0 fun _ => phrase " WHERE " :=
      .spaced (by decide) (by decide) (starts_text t ts)
    have clause := word.append (spells_text plain (List.cons_ne_nil t ts) gap)
    rw [Nat.zero_add] at clause
    exact clause

/-- Before a gap the clause of a filter is one, too. -/
theorem gap_whereText (p : Predicate) (gap : Gap rest) : Gap (p.whereText.toList ++ rest) := by
  cases p with
  | nil => exact gap
  | cons t ts =>
    rw [whereText, List.isEmpty_cons, if_neg (by decide), String.toList_append, List.append_assoc]
    exact gap_cons (.inl rfl)

end Predicate

theorem Listing.spells_text (l : Listing) (r : Resolver) : Spells [] (l.text r) 0 fun _ => l.lexemes r :=
  .of_constants _ (l.text_tokens r) (l.isConstant_tokens r) (l.stand_tokens r)

theorem Listing.gap_text (l : Listing) (r : Resolver) : Gap ((l.text r).toList ++ rest) := by
  rw [← text_tokens]
  exact gap_cons (.inl rfl)

/-! ## Statements -/

variable {name : CollectionName} {p : Predicate} {r : Resolver}

theorem head?_quoted (name : CollectionName) : name.quoted.toList.head? = some '"' := by
  rw [CollectionName.quoted, toList_quoteName]
  rfl

/-- A phrase, a table and what restricts its rows. -/
theorem spells_from (name : CollectionName) (a : String) (fixed : (isPhrase a && (phraseTokens a).getLast?.all fun t => !t.takesIn '"') = true)
    (gap : Gap (b.toList ++ rest)) (restricts : Spells rest b k ls) :
    Spells rest (a ++ name.quoted ++ b) k fun n => phrase a ++ (.quoted name.text true :: ls n) := by
  have table := name.spells_quoted (gap.ends (p := (· == '"')) (by decide) (by decide) (by decide))
  have front := (Spells.before (head?_quoted name) fixed).append table
  have whole := front.append restricts
  simpa using whole

namespace Statement

/-- The clause that chooses the rows of a mutation, before a gap. -/
def targetLexemes (name : CollectionName) (p : Predicate) (cardinality : Cardinality) (n : Nat) : List Lexeme :=
  match cardinality with
  | .many => p.whereLexemes n
  | .one => phrase " WHERE rowid = (SELECT rowid FROM " ++ (.quoted name.text true :: (p.whereLexemes n
      ++ phrase " ORDER BY rowid ASC LIMIT 1)"))

theorem spells_targetText (name : CollectionName) (plain : p.Plain) (gap : Gap rest) (cardinality : Cardinality) :
    Spells rest (targetText name p cardinality) p.params.length (targetLexemes name p cardinality) := by
  cases cardinality with
  | many => exact p.spells_whereText plain gap
  | one =>
    have page : Spells rest " ORDER BY rowid ASC LIMIT 1)" 0 fun _ => phrase " ORDER BY rowid ASC LIMIT 1)" := by
      refine .of_phrase (by decide) fun u last d _ => ?_
      have closing : (phraseTokens " ORDER BY rowid ASC LIMIT 1)").getLast? = some ⟨.symbol, [')']⟩ := by decide
      obtain rfl := Option.some.inj (closing.symm.trans last)
      exact takesIn_alone d (by decide) (by decide)
    have between := gap_of_blank (a := " ORDER BY rowid ASC LIMIT 1)") (by decide) rest
    have rows := spells_from name " WHERE rowid = (SELECT rowid FROM " (by decide) (p.gap_whereText between) (p.spells_whereText plain between)
    have found := rows.append page
    exact found.congr fun n => by rw [targetLexemes, List.append_assoc, List.cons_append]

/-- Before a gap the choice of the rows is one, too. -/
theorem gap_targetText (p : Predicate) (gap : Gap rest) (cardinality : Cardinality) :
    Gap ((targetText name p cardinality).toList ++ rest) := by
  cases cardinality with
  | many => exact p.gap_whereText gap
  | one =>
    have starts : " WHERE rowid = (SELECT rowid FROM ".toList.head? = some ' ' := by decide
    exact gap_of_blank (head?_append (head?_append (head?_append starts _) _) _) rest

end Statement

end Dossier
