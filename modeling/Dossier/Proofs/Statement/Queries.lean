import Dossier.Database.Execute
import Dossier.Proofs.Statement.Conjunction
import Dossier.Proofs.Statement.Spelling

/-!
# Statements as the engine reads them

What the engine reads in the text of a statement about the rows that a filter selects (`Statement.read?_text`): the clause of
the filter as its condition, the clause of a mutation of one row as a search for its number, order and page of a listing as
the terms and the stretch that they are.
-/

namespace Dossier

open Text Sql Raw Grammar

variable {ls rest : List Lexeme} {l : Lexeme} {w : String} {n : Nat}

/-- A text is read as its lexemes are, if nothing is left of them. -/
theorem Sql.whole?_of_spells {α : Type} {read : List Lexeme → Option (α × List Lexeme)} {text : String} {k : Nat}
    {ls : Nat → List Lexeme} (spells : Spells [] text k ls) (room : k ≤ limits.values) :
    whole? read text k = match read (ls 0) with
      | some (a, []) => some a
      | _ => none := by
  rw [whole?, spells.lexemes?_eq room]
  exact if_pos rfl

/-- Numbering never passes the limit. -/
theorem Sql.Numbering.last_le_of_assign {s s' : Numbering} {text : List Char} {i : Nat} (start : s.last ≤ limits.values)
    (made : s.assign text = some (i, s')) : s'.last ≤ limits.values := by
  unfold assign at made
  split at made
  · split at made
    · cases made
      assumption
    · cases made
  · simp only at made
    split at made
    · rename_i known
      obtain ⟨-, small⟩ := Bool.and_eq_true_iff.1 known
      cases made
      exact Nat.max_le.2 ⟨start, of_decide_eq_true small⟩
    · cases made
  · split at made
    · cases made
      exact start
    · split at made
      · cases made
        assumption
      · cases made

theorem Sql.last_le_of_lexemesFrom {ts : List Token} {s s' : Numbering} {ls : List Lexeme} (start : s.last ≤ limits.values)
    (read : lexemesFrom s ts = some (ls, s')) : s'.last ≤ limits.values := by
  induction ts generalizing s ls with
  | nil =>
    rw [lexemesFrom] at read
    cases read
    exact start
  | cons t ts ih =>
    have later {s₁ : Numbering} {l : Lexeme} (start : s₁.last ≤ limits.values)
        (read : (lexemesFrom s₁ ts).map (fun p => (l :: p.1, p.2)) = some (ls, s')) : s'.last ≤ limits.values := by
      obtain ⟨p, here, eq⟩ := Option.map_eq_some_iff.1 read
      cases eq
      exact ih start here
    unfold lexemesFrom at read
    split at read
    · exact ih start read
    · exact ih start read
    · split at read
      · cases read
      · rename_i made
        exact later (Numbering.last_le_of_assign start made) read
    · split at read
      · cases read
      · exact later start read

/-- The engine takes no text with so many values. -/
theorem Sql.whole?_of_excess {α : Type} {read : List Lexeme → Option (α × List Lexeme)} {text : String} {k : Nat}
    (excess : limits.values < k) : whole? read text k = none := by
  unfold whole?
  split
  · rfl
  · rename_i ls places found
    obtain ⟨p, numbered, eq⟩ := Option.map_eq_some_iff.1 found
    cases eq
    exact if_neg (Nat.ne_of_lt (Nat.lt_of_le_of_lt (last_le_of_lexemesFrom (Nat.zero_le _) numbered) excess))

/-! ## Names -/

namespace Sql.Grammar

/-- The word may name a column. -/
def isFree (w : String) : Bool := !(["not", "null", "case", "cast"].contains (foldCase w) || reserved.contains (foldCase w))

/-- Nothing goes on with an expression before the lexemes. -/
structure Stops (ls : List Lexeme) : Prop where
  connective : connective? ls = none
  apart : ∀ s more, ls = .symbol s :: more → s ≠ "(" ∧ s ≠ "."

theorem stops_word (connective : connective? (.word w :: rest) = none) : Stops (.word w :: rest) :=
  ⟨connective, fun _ _ eq => (by cases eq)⟩

theorem stops_symbol {s : String} (connective : connective? (.symbol s :: rest) = none) (apart : s ≠ "(" ∧ s ≠ ".") :
    Stops (.symbol s :: rest) :=
  ⟨connective, fun _ _ eq => (by cases eq; exact apart)⟩

theorem stops_nil : Stops [] := ⟨rfl, fun _ _ eq => (by cases eq)⟩

/-- One lexeme that is an operand. -/
theorem expression_single {x : Expr} (read : ∀ k, operand (k + 1) (l :: rest) = some (x, rest)) (stops : connective? rest = none) :
    expression (l :: rest) = some (x, rest) := by
  obtain ⟨k, fuel⟩ : ∃ k, 4 * (l :: rest).length + 4 = k + 2 := ⟨_, rfl⟩
  rw [expression, fuel, expr, read]
  exact operators_of_none stops

theorem expression_name (free : isFree w = true) (stops : Stops rest) :
    expression (.word w :: rest) = some (.name none w false, rest) := by
  simp only [isFree, Bool.not_eq_true', Bool.or_eq_false_iff, List.contains_cons, List.contains_nil, beq_eq_false_iff_ne] at free
  obtain ⟨⟨not_, null_, case_, cast_, -⟩, free⟩ := free
  obtain ⟨k, fuel⟩ : ∃ k, 4 * (Lexeme.word w :: rest).length + 4 = k + 4 := ⟨_, rfl⟩
  have one : operand (k + 3) (.word w :: rest) = some (.name none w false, rest) := by
    rw [operand_name not_ null_ case_ cast_, free]
    exact named_alone stops.apart
  rw [expression, fuel, expr, one]
  exact operators_of_none stops.connective

end Sql.Grammar

theorem Operand.expression_lexemes (v : Operand) (stops : Stops rest) (more : rest ≠ []) :
    expression (v.lexemes ++ rest) = some (v.expr, rest) := by
  obtain ⟨k, fuel⟩ : ∃ k, 4 * (v.lexemes ++ rest).length + 4 = k + 10 := by
    have long := List.length_pos_of_ne_nil more
    have pos : 0 < v.lexemes.length := by cases v <;> exact Nat.succ_pos _
    refine Nat.exists_eq_add_of_le' ?_
    rw [List.length_append]
    omega
  rw [expression, fuel, v.expr_operators stops.apart]
  exact operators_of_none stops.connective

/-! ## Conditions -/

namespace Predicate

/-- The condition of a filter, if it has one, its values numbered on from `n`. -/
def condition? (n : Nat) : Predicate → Option Expr
  | [] => none
  | t :: ts => some (expr n t ts)

theorem clause_whereLexemes (stops : connective? rest = none) (apart : atWord "where" rest = false) (p : Predicate) (n : Nat) :
    clause "where" (p.whereLexemes n ++ rest) = some (p.condition? n, rest) := by
  cases p with
  | nil => exact if_neg (by simp [whereLexemes, apart])
  | cons t ts =>
    have here : atWord "where" (.word "WHERE" :: (lexemes n (t :: ts) ++ rest)) = true := rfl
    rw [whereLexemes, List.cons_append, clause, if_pos here, List.drop_one, List.tail_cons, expression_lexemes stops]
    rfl

end Predicate

/-! ## Order and page -/

namespace Sql

theorem constants_append (ts us : List Token) : constants (ts ++ us) = constants ts ++ constants us :=
  List.filterMap_append ..

end Sql

namespace Listing

/-- The lexemes of a limit and a skip. -/
def pageLexemes (l : Listing) : List Lexeme :=
  match l.limit, l.skip with
  | none, none => []
  | some limit, none => [.word "LIMIT", .whole limit]
  | some limit, some skip => [.word "LIMIT", .whole limit, .word "OFFSET", .whole skip]
  | none, some skip => [.word "LIMIT", .symbol "-", .whole 1, .word "OFFSET", .whole skip]

/-- The lexemes of a key and the comma after it. -/
def keyLexemes (r : Resolver) (key : SortKey) : List Lexeme :=
  (r.operand key.field).lexemes ++ [.word key.direction.text, .symbol ","]

theorem constants_clauseTokens (w : String) (n : Nat) : constants (clauseTokens w n) = [.word w, .whole n] := by
  simp [clauseTokens, constants, Token.space, Token.lexeme?, numberLexeme?_natText n, String.ofList_toList]

theorem constants_keyTokens (r : Resolver) (key : SortKey) : constants (key.tokens r) = keyLexemes r key := by
  have key_ : constants (key.tokens r)
      = constants (r.operand key.field).tokens ++ constants [.space, ⟨.word, key.direction.text.toList⟩, ⟨.symbol, [',']⟩] :=
    constants_append ..
  rw [key_, Operand.constants_tokens, keyLexemes]
  cases key.direction <;> rfl

theorem constants_pageTokens (l : Listing) : constants l.pageTokens = l.pageLexemes := by
  obtain ⟨sort, limit, skip⟩ := l
  cases limit with
  | none =>
    cases skip with
    | none => rfl
    | some skip =>
      rw [pageTokens, constants_append, constants_clauseTokens]
      rfl
  | some limit =>
    cases skip with
    | none => exact constants_clauseTokens "LIMIT" limit
    | some skip =>
      rw [pageTokens, constants_append, constants_clauseTokens, constants_clauseTokens]
      rfl

theorem lexemes_eq (l : Listing) (r : Resolver) : l.lexemes r = .word "ORDER" :: .word "BY"
    :: (l.keys.flatMap (keyLexemes r) ++ (.word orderColumn :: .word "ASC" :: l.pageLexemes)) := by
  have keys : constants (l.keys.flatMap (SortKey.tokens r)) = l.keys.flatMap (keyLexemes r) := by
    induction l.keys with
    | nil => rfl
    | cons key keys ih => rw [List.flatMap_cons, List.flatMap_cons, constants_append, constants_keyTokens, ih]
  rw [lexemes, tokens, constants_append, constants_append, constants_append, keys, constants_pageTokens]
  rfl

/-- The insertion order as a term. -/
def orderTerm : OrderTerm := ⟨.name none orderColumn false, false⟩

/-- The terms that a listing orders by. -/
def terms (l : Listing) (r : Resolver) : List OrderTerm :=
  l.keys.map (fun key => ⟨(r.operand key.field).expr, key.direction == .descending⟩) ++ [orderTerm]

/-- The limit as an expression; without one, a skip has a limit below 0. -/
def limitExpr (l : Listing) : Option Expr :=
  match l.limit, l.skip with
  | none, none => none
  | some limit, _ => some (.value (wholeValue limit))
  | none, some _ => some (.value (.integer (-1)))

/-- The skip as an expression. -/
def skipExpr (l : Listing) : Option Expr := l.skip.map fun skip => .value (wholeValue skip)

theorem orderTerms_cons {x : Expr} {d : Direction} {terms : List OrderTerm} {more after : List Lexeme} {fuel : Nat}
    (read : expression ls = some (x, .word d.text :: .symbol "," :: more)) (later : orderTerms fuel more = some (terms, after)) :
    orderTerms (fuel + 1) ls = some (⟨x, d == .descending⟩ :: terms, after) := by
  rw [orderTerms, read]
  cases d with
  | ascending =>
    have word : atWord "desc" (.word "ASC" :: .symbol "," :: more) = false ∧ atWord "asc" (.word "ASC" :: .symbol "," :: more) = true :=
      ⟨rfl, rfl⟩
    simp only [Direction.text, Option.bind_eq_bind, Option.bind_some, word, Bool.false_or, if_true, List.drop_one, List.tail_cons, later]
    rfl
  | descending =>
    have word : atWord "desc" (.word "DESC" :: .symbol "," :: more) = true := rfl
    simp only [Direction.text, Option.bind_eq_bind, Option.bind_some, word, Bool.true_or, if_true, List.drop_one, List.tail_cons, later]
    rfl

/-- The terms of an order up to the page. -/
theorem orderTerms_lexemes (keys : List SortKey) (r : Resolver) (last : ∀ more, ls ≠ .symbol "," :: more) {fuel : Nat}
    (enough : keys.length < fuel) : orderTerms fuel (keys.flatMap (keyLexemes r) ++ (.word orderColumn :: .word "ASC" :: ls))
      = some (keys.map (fun key => ⟨(r.operand key.field).expr, key.direction == .descending⟩) ++ [orderTerm], ls) := by
  obtain ⟨k, rfl⟩ := Nat.exists_eq_add_of_le' (show 1 ≤ fuel by omega)
  induction keys generalizing k with
  | nil =>
    have name : expression (.word orderColumn :: .word "ASC" :: ls) = some (.name none orderColumn false, .word "ASC" :: ls) :=
      expression_name (by decide) (stops_word rfl)
    have word : atWord "desc" (.word "ASC" :: ls) = false ∧ atWord "asc" (.word "ASC" :: ls) = true := ⟨rfl, rfl⟩
    rw [List.flatMap_nil, List.nil_append, orderTerms, name]
    simp only [Option.bind_eq_bind, Option.bind_some, word, Bool.false_or, if_true, List.drop_one, List.tail_cons]
    rfl
  | cons key keys ih =>
    obtain ⟨j, rfl⟩ : ∃ j, k = j + 1 := Nat.exists_eq_add_of_le' (by simp at enough; omega)
    have stops : Stops (.word key.direction.text :: .symbol "," :: (keys.flatMap (keyLexemes r)
        ++ (.word orderColumn :: .word "ASC" :: ls))) := by cases key.direction <;> exact stops_word rfl
    rw [List.flatMap_cons, keyLexemes, List.append_assoc, List.append_assoc]
    exact orderTerms_cons ((r.operand key.field).expression_lexemes stops (List.cons_ne_nil _ _)) (ih j (by simp at enough ⊢; omega))

/-- The order of a listing up to its page. -/
theorem orderClause_lexemes (l : Listing) (r : Resolver) (last : ∀ more, rest ≠ .symbol "," :: more) :
    orderClause (l.lexemes r ++ rest) = some (l.terms r, l.pageLexemes ++ rest) := by
  have words : takeWords ["order", "by"] (l.lexemes r ++ rest) = some (l.keys.flatMap (keyLexemes r)
      ++ (.word orderColumn :: .word "ASC" :: (l.pageLexemes ++ rest))) := by
    rw [l.lexemes_eq r, List.cons_append, List.cons_append, List.append_assoc]
    rfl
  have few : l.keys.length ≤ (l.keys.flatMap (keyLexemes r)).length := by
    induction l.keys with
    | nil => exact Nat.le_refl 0
    | cons key keys ih => simp [keyLexemes] at ih ⊢; omega
  have page : ∀ more, l.pageLexemes ++ rest ≠ .symbol "," :: more := fun more => by
    unfold pageLexemes
    split
    · exact last more
    all_goals exact fun eq => by cases eq
  rw [orderClause, words]
  exact orderTerms_lexemes l.keys r page (by simp only [List.length_append, List.length_cons]; omega)

theorem expression_whole (stops : connective? rest = none) (n : Nat) :
    expression (.whole n :: rest) = some (.value (wholeValue n), rest) := expression_single (fun _ => rfl) stops

theorem expression_minusOne (stops : connective? rest = none) :
    expression (.symbol "-" :: .whole 1 :: rest) = some (.value (.integer (-1)), rest) := by
  obtain ⟨k, fuel⟩ : ∃ k, 4 * (Lexeme.symbol "-" :: .whole 1 :: rest).length + 4 = k + 4 := ⟨_, rfl⟩
  have inner : expr (k + 2) 12 (.whole 1 :: rest) = some (.value (wholeValue 1), rest) :=
    expr_of_operand rfl (loose_of_none stops) (by decide)
  have one : operand (k + 3) (.symbol "-" :: .whole 1 :: rest) = some (.value (.integer (-1)), rest) := by
    rw [Grammar.operand.eq_def]
    simp only [inner, Option.bind_eq_bind, Option.bind_some]
    rfl
  rw [expression, fuel, expr, one]
  exact operators_of_none stops

theorem clause_of_expression {x : Expr} (here : atWord w (l :: ls) = true) (read : expression ls = some (x, rest)) :
    clause w (l :: ls) = some (some x, rest) := by
  rw [clause, if_pos here, List.drop_one, List.tail_cons, read]
  rfl

/-- What stands at the end of a selection: nothing, or a parenthesis that closes it. -/
def Closes (rest : List Lexeme) : Prop := rest = [] ∨ ∃ more, rest = .symbol ")" :: more

theorem closes_nil : Closes [] := .inl rfl

theorem Closes.stops (closes : Closes rest) : connective? rest = none := by
  rcases closes with rfl | ⟨more, rfl⟩ <;> rfl

theorem Closes.atWord (closes : Closes rest) (w : String) : atWord w rest = false := by
  rcases closes with rfl | ⟨more, rfl⟩ <;> rfl

theorem Closes.not_comma (closes : Closes rest) (more : List Lexeme) : rest ≠ .symbol "," :: more := by
  rcases closes with rfl | ⟨after, rfl⟩ <;> exact fun eq => by simp at eq

/-- The stretch of a listing. -/
theorem pageClause_lexemes (l : Listing) (closes : Closes rest) :
    pageClause (l.pageLexemes ++ rest) = some (l.limitExpr, l.skipExpr, rest) := by
  obtain ⟨sort, limit, skip⟩ := l
  have none_ (w : String) : clause w rest = some (none, rest) := if_neg (by simp [closes.atWord w])
  have skip_ (m : Nat) : clause "offset" (.word "OFFSET" :: .whole m :: rest) = some (some (.value (wholeValue m)), rest) :=
    clause_of_expression rfl (expression_whole closes.stops m)
  unfold pageClause
  cases limit with
  | none =>
    cases skip with
    | none =>
      simp only [pageLexemes, List.nil_append, none_, Option.bind_eq_bind, Option.bind_some]
      rfl
    | some m =>
      have limit_ : clause "limit" (.word "LIMIT" :: .symbol "-" :: .whole 1 :: .word "OFFSET" :: .whole m :: rest)
          = some (some (.value (.integer (-1))), .word "OFFSET" :: .whole m :: rest) :=
        clause_of_expression rfl (expression_minusOne rfl)
      simp only [pageLexemes, List.cons_append, List.nil_append, limit_, Option.isSome_some, if_true, skip_, Option.bind_eq_bind,
        Option.bind_some]
      rfl
  | some n =>
    cases skip with
    | none =>
      have limit_ : clause "limit" (.word "LIMIT" :: .whole n :: rest) = some (some (.value (wholeValue n)), rest) :=
        clause_of_expression rfl (expression_whole closes.stops n)
      simp only [pageLexemes, List.cons_append, List.nil_append, limit_, Option.isSome_some, if_true, none_, Option.bind_eq_bind,
        Option.bind_some]
      rfl
    | some m =>
      have limit_ : clause "limit" (.word "LIMIT" :: .whole n :: .word "OFFSET" :: .whole m :: rest)
          = some (some (.value (wholeValue n)), .word "OFFSET" :: .whole m :: rest) :=
        clause_of_expression rfl (expression_whole rfl n)
      simp only [pageLexemes, List.cons_append, List.nil_append, limit_, Option.isSome_some, if_true, skip_, Option.bind_eq_bind,
        Option.bind_some]
      rfl

/-- The rows of a filter, in the order and the stretch of a listing. -/
def selection (l : Listing) (r : Resolver) (table : String) (p : Predicate) (n : Nat) : Selection :=
  ⟨table, p.condition? n, l.terms r, l.limitExpr, l.skipExpr⟩

theorem read_selection (l : Listing) (r : Resolver) (table : String) (p : Predicate) (n : Nat) (closes : Closes rest) :
    Selection.read (.quoted table true :: (p.whereLexemes n ++ (l.lexemes r ++ rest))) = some (l.selection r table p n, rest) := by
  have name : tableName (.quoted table true :: (p.whereLexemes n ++ (l.lexemes r ++ rest)))
      = some (table, p.whereLexemes n ++ (l.lexemes r ++ rest)) := rfl
  have order := l.lexemes_eq r
  have where_ : clause "where" (p.whereLexemes n ++ (l.lexemes r ++ rest)) = some (p.condition? n, l.lexemes r ++ rest) :=
    p.clause_whereLexemes (by rw [order]; rfl) (by rw [order]; rfl) n
  have ordered := l.orderClause_lexemes r closes.not_comma
  rw [Selection.read, name]
  simp only [Option.bind_eq_bind, Option.bind_some, where_, ordered, pageClause_lexemes l closes]
  rfl

end Listing

/-! ## Restrictions -/

/-- A term begins with none of the lexemes that tell other restrictions. -/
theorem Term.exists_lexemes (t : Term) (n : Nat) : ∃ l more, t.lexemes n = l :: more ∧ word? l ≠ some "rowid"
    ∧ word? l ≠ some "data" ∧ l ≠ .symbol "(" ∧ word? l ≠ some "where" := by
  have operand (v : Operand) (more : List Lexeme) : ∃ l after, v.lexemes ++ more = l :: after ∧ word? l ≠ some "rowid"
      ∧ word? l ≠ some "data" ∧ l ≠ .symbol "(" ∧ word? l ≠ some "where" := by
    cases v with
    | system c => cases c <;> exact ⟨_, _, rfl, by decide, by decide, by simp, by decide⟩
    | promoted column => exact ⟨_, _, rfl, by simp [word?], by simp [word?], by simp, by simp [word?]⟩
    | extract path => exact ⟨_, _, rfl, by decide, by decide, by simp, by decide⟩
  cases t with
  | isNull v | notNull v | compare v op w | like v w => exact operand v _
  | compareReal v op w => exact ⟨_, _, rfl, by decide, by decide, by simp, by decide⟩
  | member v negated vs => exact operand v _
  | constant b => exact ⟨_, _, rfl, by simp [word?], by simp [word?], by simp, by simp [word?]⟩

namespace Sql.Restriction

theorem takeWord_none {w : String} (apart : word? l ≠ some w) : takeWord w (l :: ls) = none :=
  if_neg (by simpa [atWord] using apart)

/-- A condition in which no other restriction is spelled. -/
theorem read_condition {least : Nat} (row : word? l ≠ some "rowid") (data : word? l ≠ some "data") (opens : l ≠ .symbol "(") :
    Restriction.read least (l :: ls)
      = (expr (4 * (l :: ls).length + 4) least (l :: ls)).map fun p => (.condition p.1, p.2) := by
  have lookup : lookup? (l :: ls) = none := by simp [lookup?, takeWord_none row]
  have unlike_ : takeWords ["data", "is", "not"] (l :: ls) = none := by simp [takeWords, takeWord_none data]
  have parenthesis : takeSymbol "(" (l :: ls) = none := by
    cases l with
    | symbol s => exact if_neg fun same => opens (congrArg _ same)
    | word | quoted | string | whole | real | param => rfl
  rw [Restriction.read, lookup]
  simp only [unlike_, parenthesis]

end Sql.Restriction

/-! ## Mutations -/

namespace Statement

/-- The rows that a mutation is about. -/
def target (table : String) (p : Predicate) (cardinality : Cardinality) (n : Nat) : Target :=
  match cardinality with
  | .many => ⟨table, (p.condition? n).toList.map .condition⟩
  | .one => ⟨table, [.numbered (Listing.first.selection ⟨[]⟩ table p n)]⟩

/-- The clause of a filter by itself restricts to its condition. -/
theorem readIn_whereLexemes (table : String) (p : Predicate) (n : Nat) (closes : Listing.Closes rest) :
    Target.readIn table (p.whereLexemes n ++ rest) = some (target table p .many n, rest) := by
  cases p with
  | nil => exact if_neg (by simp [Predicate.whereLexemes, closes.atWord])
  | cons t ts =>
    obtain ⟨l, more, first, row, data, opens, -⟩ := t.exists_lexemes n
    have read : Restriction.read 0 (Predicate.lexemes n (t :: ts) ++ rest) = some (.condition (Predicate.expr n t ts), rest) := by
      have whole := Predicate.expression_lexemes closes.stops n t ts
      rw [Predicate.lexemes, first, List.cons_append, List.cons_append] at whole ⊢
      rw [Restriction.read_condition row data opens]
      rw [expression] at whole
      rw [whole]
      rfl
    have here : atWord "where" (.word "WHERE" :: (Predicate.lexemes n (t :: ts) ++ rest)) = true := rfl
    obtain ⟨k, fuel⟩ : ∃ k, (Lexeme.word "WHERE" :: (Predicate.lexemes n (t :: ts) ++ rest)).length = k + 1 := ⟨_, rfl⟩
    rw [Predicate.whereLexemes, List.cons_append, Target.readIn, if_pos here, List.drop_one, List.tail_cons, fuel,
      Restriction.readAll, read]
    simp only [Option.bind_eq_bind, Option.bind_some, closes.atWord "and"]
    rfl

/-- The number of the first row that a filter selects. -/
def numbered (table : String) (p : Predicate) (n : Nat) : Restriction := .numbered (Listing.first.selection ⟨[]⟩ table p n)

/-- The search for the first row, up to the parenthesis that closes it. -/
theorem read_numbered (name : CollectionName) (p : Predicate) (n least : Nat) (rest : List Lexeme) :
    ∃ inner, targetLexemes name p .one n ++ rest = .word "WHERE" :: inner
      ∧ Restriction.read least inner = some (numbered name.text p n, rest) := by
  have front : phrase " WHERE rowid = (SELECT rowid FROM "
      = [.word "WHERE", .word "rowid", .symbol "=", .symbol "(", .word "SELECT", .word "rowid", .word "FROM"] := phrase_eq (by decide)
  have back : phrase " ORDER BY rowid ASC LIMIT 1)" = Listing.first.lexemes ⟨[]⟩ ++ [.symbol ")"] := rfl
  have closes : Listing.Closes (.symbol ")" :: rest) := .inr ⟨rest, rfl⟩
  have search := Listing.first.read_selection ⟨[]⟩ name.text p n closes
  generalize inside : (.quoted name.text true :: (p.whereLexemes n ++ (Listing.first.lexemes ⟨[]⟩ ++ .symbol ")" :: rest))) = ls
    at search
  have lexemes : targetLexemes name p .one n ++ rest = .word "WHERE" :: .word "rowid" :: .symbol "=" :: .symbol "("
      :: .word "SELECT" :: .word "rowid" :: .word "FROM" :: ls := by
    rw [targetLexemes, front, back, ← inside]
    simp
  refine ⟨_, lexemes, ?_⟩
  have lookup : Restriction.lookup? (.word "rowid" :: .symbol "=" :: .symbol "(" :: .word "SELECT" :: .word "rowid" :: .word "FROM" :: ls)
      = some ls := rfl
  rw [Restriction.read, lookup]
  simp only [search, Option.bind_eq_bind, Option.bind_some]
  rfl

/-- What the engine reads as the choice of the rows of a mutation. -/
theorem readIn_targetLexemes (name : CollectionName) (p : Predicate) (cardinality : Cardinality) (n : Nat)
    (closes : Listing.Closes rest) : Target.readIn name.text (targetLexemes name p cardinality n ++ rest)
      = some (target name.text p cardinality n, rest) := by
  cases cardinality with
  | many => exact readIn_whereLexemes name.text p n closes
  | one =>
    obtain ⟨inner, lexemes, read⟩ := read_numbered name p n 0 rest
    have here : atWord "where" (.word "WHERE" :: inner) = true := rfl
    obtain ⟨k, fuel⟩ : ∃ k, (Lexeme.word "WHERE" :: inner).length = k + 1 := ⟨_, rfl⟩
    rw [lexemes, Target.readIn, if_pos here, List.drop_one, List.tail_cons, fuel, Restriction.readAll, read]
    simp only [Option.bind_eq_bind, Option.bind_some, closes.atWord "and"]
    rfl

theorem read_target (name : CollectionName) (p : Predicate) (cardinality : Cardinality) (n : Nat)
    (closes : Listing.Closes rest) : Target.read (.quoted name.text true :: (targetLexemes name p cardinality n ++ rest))
      = some (target name.text p cardinality n, rest) :=
  readIn_targetLexemes name p cardinality n closes

/-! ## Whole statements -/

/-- The columns that a statement asks for. -/
def columnsOf (names : List String) : List Expr := names.map fun name => .name none name false

variable {a : Answer} {name : CollectionName} {p : Predicate} {r : Resolver}

theorem read?_of_spells {text : String} {k : Nat} {ls : Nat → List Lexeme} {q : Query} (spells : Spells [] text k ls)
    (room : k ≤ limits.values) (read : Query.read (ls 0) = some (q, [])) : Query.read? text k = some q := by
  rw [Query.read?, whole?_of_spells spells room, read]

/-- What a statement counts. -/
theorem read?_countTargets (plain : p.Plain) (room : p.params.length ≤ limits.values) (cardinality : Cardinality) :
    Query.read? ((countTargets p cardinality).text name r) p.params.length = some (.count (target name.text p cardinality 0)) := by
  have front : phrase "SELECT COUNT(*) FROM "
      = [.word "SELECT", .word "COUNT", .symbol "(", .symbol "*", .symbol ")", .word "FROM"] := phrase_eq (by decide)
  refine read?_of_spells (spells_from name "SELECT COUNT(*) FROM " (by decide) (gap_targetText p gap_nil cardinality)
    (spells_targetText name plain gap_nil cardinality)) room ?_
  have read := read_target name p cardinality 0 Listing.closes_nil
  rw [List.append_nil] at read
  rw [front]
  simp only [List.cons_append, List.nil_append]
  generalize (.quoted name.text true :: targetLexemes name p cardinality 0) = ls at read ⊢
  have counts : Query.read (.word "SELECT" :: .word "COUNT" :: .symbol "(" :: .symbol "*" :: .symbol ")" :: .word "FROM" :: ls)
      = (Target.read ls).map fun x => (.count x.1, x.2) := rfl
  rw [counts, read]
  rfl

/-- What a statement deletes. -/
theorem read?_delete (plain : p.Plain) (room : p.params.length ≤ limits.values) (cardinality : Cardinality) :
    Query.read? ((delete p cardinality).text name r) p.params.length = some (.delete (target name.text p cardinality 0)) := by
  have front : phrase "DELETE FROM " = [.word "DELETE", .word "FROM"] := phrase_eq (by decide)
  refine read?_of_spells (spells_from name "DELETE FROM " (by decide) (gap_targetText p gap_nil cardinality)
    (spells_targetText name plain gap_nil cardinality)) room ?_
  have read := read_target name p cardinality 0 Listing.closes_nil
  rw [List.append_nil] at read
  rw [front]
  simp only [List.cons_append, List.nil_append]
  generalize (.quoted name.text true :: targetLexemes name p cardinality 0) = ls at read ⊢
  have deletes : Query.read (.word "DELETE" :: .word "FROM" :: ls)
      = (Target.read ls).bind fun x => some (.delete x.1, x.2) := rfl
  rw [deletes, read]
  rfl

/-- Names with commas between them, up to a word. -/
theorem columns_names {w : String} {names : List String} (free : ∀ u ∈ w :: names, isFree u = true) {after : String}
    (stops : connective? (.word after :: ls) = none) {fuel : Nat} (enough : names.length < fuel) :
    Query.columns fuel (.word w :: (names.flatMap (fun v => [.symbol ",", .word v]) ++ .word after :: ls))
      = some (columnsOf (w :: names), .word after :: ls) := by
  obtain ⟨k, rfl⟩ := Nat.exists_eq_add_of_le' (show 1 ≤ fuel by omega)
  induction names generalizing w k with
  | nil =>
    have name := expression_name (free w List.mem_cons_self) (stops_word stops)
    rw [List.flatMap_nil, List.nil_append, Query.columns, name]
    rfl
  | cons v names ih =>
    obtain ⟨j, rfl⟩ : ∃ j, k = j + 1 := Nat.exists_eq_add_of_le' (by simp at enough; omega)
    obtain ⟨first, others⟩ := List.forall_mem_cons.1 free
    have later := ih (w := v) others j (by simp at enough ⊢; omega)
    have comma : Stops (.symbol "," :: .word v :: (names.flatMap (fun v => [.symbol ",", .word v]) ++ .word after :: ls)) :=
      stops_symbol rfl (by decide)
    have name := expression_name first comma
    simp only [List.flatMap_cons, List.cons_append, List.nil_append]
    rw [Query.columns, name]
    simp only [Option.bind_eq_bind, Option.bind_some, later]
    rfl

variable {l : Listing}

/-- The rows of a selection, with their columns. -/
theorem read_rows {w : String} {names : List String} (free : ∀ u ∈ w :: names, isFree u = true)
    (other : Query.takeAll [.word "COUNT", .symbol "(", .symbol "*", .symbol ")", .word "FROM"] (.word w :: ls) = none
      ∧ Query.takeAll Query.codeFront (.word w :: ls) = none)
    (lexemes : ls = names.flatMap (fun v => [.symbol ",", .word v]) ++ .word "FROM" :: rest) {s : Selection}
    (read : Selection.read rest = some (s, [])) :
    Query.read (.word "SELECT" :: .word w :: ls) = some (.rows (columnsOf (w :: names)) s, []) := by
  have few : names.length < (Lexeme.word w :: ls).length := by
    have long : names.length ≤ (names.flatMap fun v => [Lexeme.symbol ",", .word v]).length := by
      clear free lexemes
      induction names with
      | nil => exact Nat.le_refl 0
      | cons v names ih => simp at ih ⊢; omega
    rw [lexemes, List.length_cons, List.length_append]
    omega
  have stops : connective? (.word "FROM" :: rest) = none := rfl
  have listed := columns_names free stops few
  rw [← lexemes] at listed
  have from_ : takeWord "from" (.word "FROM" :: rest) = some rest := rfl
  have selects : Query.read (.word "SELECT" :: .word w :: ls) = Query.readSelect (.word w :: ls) := rfl
  rw [selects, Query.readSelect, other.1, other.2]
  simp only [listed, from_, read, Option.bind_eq_bind, Option.bind_some]
  rfl

/-- A phrase for columns, a table, the clause of a filter, order and page. -/
theorem read?_listed {a : String} {w : String} (names : List String) (plain : p.Plain) (room : p.params.length ≤ limits.values)
    (fixed : (isPhrase a && (phraseTokens a).getLast?.all fun t => !t.takesIn '"') = true)
    (front : phrase a = .word "SELECT" :: .word w :: (names.flatMap (fun v => [.symbol ",", .word v]) ++ [.word "FROM"]))
    (free : ∀ u ∈ w :: names, isFree u = true) (other : ∀ ls, Query.takeAll [.word "COUNT", .symbol "(", .symbol "*", .symbol ")",
      .word "FROM"] (.word w :: ls) = none ∧ Query.takeAll Query.codeFront (.word w :: ls) = none) :
    Query.read? (a ++ name.quoted ++ (p.whereText ++ l.text r)) p.params.length
      = some (.rows (columnsOf (w :: names)) (l.selection r name.text p 0)) := by
  have clause := (p.spells_whereText plain (l.gap_text r)).append (l.spells_text r)
  have gap : Gap ((p.whereText ++ l.text r).toList ++ []) := by
    rw [String.toList_append, List.append_assoc]
    exact p.gap_whereText (l.gap_text r)
  refine read?_of_spells (spells_from name a fixed gap clause) room ?_
  have read := l.read_selection r name.text p 0 Listing.closes_nil
  rw [List.append_nil] at read
  rw [front, List.cons_append, List.cons_append, List.append_assoc]
  exact read_rows free (other _) rfl read

/-- What a statement finds. -/
theorem read?_find (plain : p.Plain) (room : p.params.length ≤ limits.values) : Query.read? ((find p l).text name r) p.params.length
    = some (.rows (columnsOf systemColumns) (l.selection r name.text p 0)) := by
  have columns : "SELECT " ++ documentColumns ++ " FROM " = "SELECT id, data, created_at, updated_at FROM " := by decide
  have text : (find p l).text name r = "SELECT " ++ documentColumns ++ " FROM " ++ name.quoted ++ (p.whereText ++ l.text r) :=
    String.append_assoc
  rw [text, columns]
  exact read?_listed ["data", "created_at", "updated_at"] plain room (by decide) (phrase_eq (by decide)) (by decide)
    fun _ => ⟨rfl, rfl⟩

/-- The listing of the rows that an update is about to overwrite. -/
def fetchListing : Cardinality → Listing
  | .one => .first
  | .many => .all

/-- What a statement fetches. -/
theorem read?_fetch (plain : p.Plain) (room : p.params.length ≤ limits.values) (cardinality : Cardinality) :
    Query.read? ((fetch p cardinality).text name r) p.params.length
      = some (.rows (columnsOf ["id", "data"]) ((fetchListing cardinality).selection ⟨[]⟩ name.text p 0)) := by
  have order : " ORDER BY rowid ASC" ++ (match cardinality with | .one => " LIMIT 1" | .many => "")
      = (fetchListing cardinality).text ⟨[]⟩ := by cases cardinality <;> decide
  have text : (fetch p cardinality).text name r
      = "SELECT id, data FROM " ++ name.quoted ++ (p.whereText ++ (fetchListing cardinality).text ⟨[]⟩) := by
    rw [← order, ← String.append_assoc, ← String.append_assoc]
    rfl
  rw [text]
  exact read?_listed ["data"] plain room (by decide) (phrase_eq (by decide)) (by decide) fun _ => ⟨rfl, rfl⟩

end Statement

end Dossier
