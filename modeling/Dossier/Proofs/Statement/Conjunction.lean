import Dossier.Proofs.Statement.Terms

/-!
# Compiled filters as conditions

The grammar reads the terms of a compiled filter as a conjunction: a term binds more strongly than the `AND` after it
(`Term.expr_lexemes`, `Predicate.expression_lexemes`).
-/

namespace Dossier

open Text Sql Raw

variable {fuel least : Nat} {ls after rest : List Lexeme} {x y : Expr}

/-! ## The grammar -/

namespace Sql.Grammar

/-- What follows binds less strongly than a negation. -/
def Loose (ls : List Lexeme) : Prop := ∀ c, connective? ls = some c → c.2.1 < 3

theorem loose_of_none (stops : connective? ls = none) : Loose ls := by
  simp [Loose, stops]

theorem operators_of_loose (loose : Loose ls) (strong : 3 ≤ least) : operators (fuel + 1) least x ls = some (x, ls) := by
  rw [operators]
  cases found : connective? ls with
  | none => rfl
  | some c =>
    obtain ⟨c, strength, after⟩ := c
    exact if_pos (Nat.lt_of_lt_of_le (loose _ found) strong)

/-- An operand by itself, where nothing goes on with it. -/
theorem expr_of_operand (read : operand (fuel + 1) ls = some (x, rest)) (loose : Loose rest) (strong : 3 ≤ least) :
    expr (fuel + 2) least ls = some (x, rest) := by
  rw [expr, read]
  exact operators_of_loose loose strong

theorem operators_binary {op : BinaryOp} {strength : Nat} (found : connective? ls = some (.binary op, strength, after))
    (strong : least ≤ strength) (read : expr fuel (strength + 1) after = some (y, rest)) :
    operators (fuel + 1) least x ls = operators fuel least (binaryForm op x y) rest := by
  rw [operators, found]
  simp only [Nat.not_lt.2 strong, if_false, read, Option.bind_eq_bind, Option.bind_some]

/-- Every operator but the conjunction takes its sides as they are. -/
theorem operators_plain {op : BinaryOp} {strength : Nat} (other : op ≠ .and)
    (found : connective? ls = some (.binary op, strength, after)) (strong : least ≤ strength)
    (read : expr fuel (strength + 1) after = some (y, rest)) :
    operators (fuel + 1) least x ls = operators fuel least (.binary op x y) rest := by
  rw [operators_binary found strong read, binaryForm, if_neg (by simp [other])]

theorem operators_like {mid : List Lexeme} {z : Expr} (found : connective? ls = some (.like false, 4, after)) (weak : least ≤ 4)
    (pattern : expr fuel 5 after = some (y, .word "ESCAPE" :: mid)) (escape : expr fuel 5 mid = some (z, rest)) :
    operators (fuel + 1) least x ls = operators fuel least (.ternary .likeEscape x y z) rest := by
  have word : atWord "escape" (.word "ESCAPE" :: mid) = true := rfl
  rw [operators, found]
  simp only [Nat.not_lt.2 weak, if_false, pattern, word, if_true, List.drop_succ_cons, List.drop_zero, escape, negateIf,
    Option.bind_eq_bind, Option.bind_some, Bool.false_eq_true]

theorem operators_member {negated : Bool} {strength : Nat} {items : List Expr}
    (found : connective? ls = some (.member negated, strength, .symbol "(" :: after)) (weak : least ≤ strength)
    (listed : list fuel after = some (items, rest) ∨ (after = .symbol ")" :: rest ∧ items = [])) :
    operators (fuel + 1) least x ls = operators fuel least (negateIf negated (memberForm x items)) rest := by
  have opens : takeSymbol "(" (.symbol "(" :: after) = some after := rfl
  rw [operators, found]
  simp only [Nat.not_lt.2 weak, if_false, opens, Option.bind_eq_bind, Option.bind_some]
  rcases listed with listed | ⟨rfl, rfl⟩
  · split
    · rw [list_close] at listed
      cases listed
    · rw [listed]
      rfl
  · rfl

/-- A comparison binds more strongly than a negation. -/
theorem exists_connective (op : Value.Comparison) : ∃ strength, 3 ≤ strength
    ∧ ∀ ls, connective? (.symbol op.text :: ls) = some (.binary (.compare op), strength, ls) := by
  cases op
  case eq | ne => exact ⟨4, by decide, fun _ => rfl⟩
  case lt | le | gt | ge => exact ⟨5, by decide, fun _ => rfl⟩

end Sql.Grammar

open Grammar

namespace Operand

/-- The operand as an expression. -/
def expr : Operand → Expr
  | .system c => .name none c.name false
  | .promoted column => .name none column true
  | .extract path => .binary .extract (.name none bodyColumn false) (.value (.text path.jsonPath))

theorem operand_lexemes (v : Operand) (apart : ∀ s more, ls = .symbol s :: more → s ≠ "(" ∧ s ≠ ".") (k : Nat) :
    Grammar.operand (k + 9) (v.lexemes ++ ls) = some (v.expr, ls) := by
  cases v with
  | system c =>
    have word : ∀ w, w = c.name → foldCase w ≠ "not" ∧ foldCase w ≠ "null" ∧ foldCase w ≠ "case" ∧ foldCase w ≠ "cast"
        ∧ reserved.contains (foldCase w) = false := by
      rintro w rfl
      cases c <;> decide
    obtain ⟨not_, null_, case_, cast_, free⟩ := word _ rfl
    rw [lexemes, List.singleton_append, operand_name not_ null_ case_ cast_, free]
    exact named_alone apart
  | promoted column => exact named_alone apart
  | extract path => rfl

/-- Operators stand after an operand. -/
theorem expr_operators (v : Operand) (apart : ∀ s more, ls = .symbol s :: more → s ≠ "(" ∧ s ≠ ".") (k : Nat) :
    Grammar.expr (k + 10) least (v.lexemes ++ ls) = Grammar.operators (k + 9) least v.expr ls := by
  rw [Grammar.expr, v.operand_lexemes apart k]
  rfl

theorem apart_word (w s : String) (more : List Lexeme) (same : .word w :: ls = .symbol s :: more) : s ≠ "(" ∧ s ≠ "." := by
  cases same

theorem apart_comparison (op : Value.Comparison) (s : String) (more : List Lexeme)
    (same : .symbol op.text :: ls = .symbol s :: more) : s ≠ "(" ∧ s ≠ "." := by
  cases same
  cases op <;> decide

variable {n k : Nat} (v : Operand) (weak : least ≤ 3) (loose : Loose rest)

include weak loose

theorem expr_isNull : Grammar.expr (k + 11) least (v.lexemes ++ .word "IS" :: .word "NULL" :: rest)
    = Grammar.operators (k + 9) least (.binary (.is false) v.expr (.value .null)) rest := by
  have is : connective? (.word "IS" :: .word "NULL" :: rest) = some (.binary (.is false), 4, .word "NULL" :: rest) := rfl
  have null : Grammar.expr (k + 9) 5 (.word "NULL" :: rest) = some (.value .null, rest) :=
    expr_of_operand (operand_null (by decide)) loose (by decide)
  rw [v.expr_operators (apart_word "IS") (k + 1)]
  exact operators_plain (by decide) is (Nat.le_trans weak (by decide)) null

theorem expr_notNull : Grammar.expr (k + 11) least (v.lexemes ++ .word "IS" :: .word "NOT" :: .word "NULL" :: rest)
    = Grammar.operators (k + 9) least (.binary (.is true) v.expr (.value .null)) rest := by
  have isNot : connective? (.word "IS" :: .word "NOT" :: .word "NULL" :: rest)
      = some (.binary (.is true), 4, .word "NULL" :: rest) := rfl
  have null : Grammar.expr (k + 9) 5 (.word "NULL" :: rest) = some (.value .null, rest) :=
    expr_of_operand (operand_null (by decide)) loose (by decide)
  rw [v.expr_operators (apart_word "IS") (k + 1)]
  exact operators_plain (by decide) isNot (Nat.le_trans weak (by decide)) null

theorem expr_compare (op : Value.Comparison) :
    Grammar.expr (k + 11) least (v.lexemes ++ .symbol op.text :: .param n :: rest)
      = Grammar.operators (k + 9) least (.binary (.compare op) v.expr (.param n)) rest := by
  obtain ⟨strength, strong, connects⟩ := exists_connective op
  have param : Grammar.expr (k + 9) (strength + 1) (.param n :: rest) = some (.param n, rest) :=
    expr_of_operand rfl loose (Nat.le_succ_of_le strong)
  rw [v.expr_operators (apart_comparison op) (k + 1)]
  exact operators_plain (by simp) (connects _) (Nat.le_trans weak strong) param

theorem expr_compareReal (op : Value.Comparison) : Grammar.expr (k + 13) least (.word "CAST" :: .symbol "(" :: (v.lexemes
      ++ .word "AS" :: .word "REAL" :: .symbol ")" :: .symbol op.text :: .param n :: rest))
    = Grammar.operators (k + 11) least (.binary (.compare op) (.unary (.cast .real) v.expr) (.param n)) rest := by
  obtain ⟨strength, strong, connects⟩ := exists_connective op
  have inner : Grammar.expr (k + 11) 0 (v.lexemes ++ .word "AS" :: .word "REAL" :: .symbol ")" :: .symbol op.text :: .param n :: rest)
      = some (v.expr, .word "AS" :: .word "REAL" :: .symbol ")" :: .symbol op.text :: .param n :: rest) := by
    rw [v.expr_operators (apart_word "AS") (k + 1)]
    exact operators_of_none rfl
  have cast : Grammar.operand (k + 12) (.word "CAST" :: .symbol "(" :: (v.lexemes
      ++ .word "AS" :: .word "REAL" :: .symbol ")" :: .symbol op.text :: .param n :: rest))
      = some (.unary (.cast .real) v.expr, .symbol op.text :: .param n :: rest) := by
    rw [operand_cast (by decide)]
    show (Grammar.expr (k + 11) 0 _).bind _ = _
    rw [inner]
    rfl
  have param : Grammar.expr (k + 11) (strength + 1) (.param n :: rest) = some (.param n, rest) :=
    expr_of_operand rfl loose (Nat.le_succ_of_le strong)
  rw [Grammar.expr, cast]
  exact operators_plain (by simp) (connects _) (Nat.le_trans weak strong) param

theorem expr_like : Grammar.expr (k + 11) least (v.lexemes ++ .word "LIKE" :: .param n :: .word "ESCAPE" :: .string "\\" :: rest)
    = Grammar.operators (k + 9) least (.ternary .likeEscape v.expr (.param n) (.value (.text "\\"))) rest := by
  have like_ : connective? (.word "LIKE" :: .param n :: .word "ESCAPE" :: .string "\\" :: rest)
      = some (.like false, 4, .param n :: .word "ESCAPE" :: .string "\\" :: rest) := rfl
  have param : Grammar.expr (k + 9) 5 (.param n :: .word "ESCAPE" :: .string "\\" :: rest)
      = some (.param n, .word "ESCAPE" :: .string "\\" :: rest) :=
    expr_of_operand rfl (loose_of_none rfl) (by decide)
  have escape : Grammar.expr (k + 9) 5 (.string "\\" :: rest) = some (.value (.text "\\"), rest) :=
    expr_of_operand rfl loose (by decide)
  rw [v.expr_operators (apart_word "LIKE") (k + 1)]
  exact operators_like like_ (Nat.le_trans weak (by decide)) param escape

omit loose

theorem expr_member (negated : Bool) {items : List Expr} (listed : Grammar.list (k + 9) after = some (items, rest)
    ∨ (after = .symbol ")" :: rest ∧ items = [])) :
    Grammar.expr (k + 11) least (v.lexemes ++ ((Term.memberWords negated).map .word ++ .symbol "(" :: after))
      = Grammar.operators (k + 9) least (negateIf negated (memberForm v.expr items)) rest := by
  cases negated with
  | false =>
    have in_ : connective? (.word "IN" :: .symbol "(" :: after) = some (.member false, 4, .symbol "(" :: after) := rfl
    show Grammar.expr (k + 1 + 10) least (v.lexemes ++ .word "IN" :: .symbol "(" :: after) = _
    rw [v.expr_operators (apart_word "IN") (k + 1)]
    exact operators_member in_ (Nat.le_trans weak (by decide)) listed
  | true =>
    have notIn : connective? (.word "NOT" :: .word "IN" :: .symbol "(" :: after)
        = some (.member true, 3, .symbol "(" :: after) := rfl
    show Grammar.expr (k + 1 + 10) least (v.lexemes ++ .word "NOT" :: .word "IN" :: .symbol "(" :: after) = _
    rw [v.expr_operators (apart_word "NOT") (k + 1)]
    exact operators_member notIn weak listed

end Operand

namespace Term

/-- The places of values as expressions. -/
def places (n : Nat) : List Value → List Expr
  | [] => []
  | _ :: vs => .param n :: places (n + 1) vs

/-- The term as an expression, its values numbered on from `n`. -/
def expr (n : Nat) : Term → Expr
  | isNull v => .binary (.is false) v.expr (.value .null)
  | notNull v => .binary (.is true) v.expr (.value .null)
  | compare v op _ => .binary (.compare op) v.expr (.param n)
  | compareReal v op _ => .binary (.compare op) (.unary (.cast .real) v.expr) (.param n)
  | member v negated vs => negateIf negated (memberForm v.expr (places n vs))
  | like v _ => .ternary .likeEscape v.expr (.param n) (.value (.text "\\"))
  | constant b => .value (.integer (if b then 1 else 0))

theorem list_placesOf (v : Value) (vs : List Value) (n : Nat) (enough : vs.length + 3 ≤ fuel) :
    Grammar.list fuel (placesOf n (v :: vs) ++ .symbol ")" :: rest) = some (places n (v :: vs), rest) := by
  obtain ⟨k, rfl⟩ := Nat.exists_eq_add_of_le' (Nat.le_trans (Nat.le_add_left 3 _) enough)
  induction vs generalizing v n k with
  | nil => rfl
  | cons w vs ih =>
    obtain ⟨j, rfl⟩ : ∃ j, k = j + 1 := Nat.exists_eq_add_of_le' (by simp at enough; omega)
    have first : Grammar.expr (j + 1 + 2) 0 (.param n :: .symbol "," :: (placesOf (n + 1) (w :: vs) ++ .symbol ")" :: rest))
        = some (.param n, .symbol "," :: (placesOf (n + 1) (w :: vs) ++ .symbol ")" :: rest)) := rfl
    have later := ih w (n + 1) j (by simp at enough ⊢; omega)
    show Grammar.list (j + 1 + 2 + 1) (.param n :: .symbol "," :: (placesOf (n + 1) (w :: vs) ++ .symbol ")" :: rest)) = _
    rw [Grammar.list, first]
    simp only [Option.bind_eq_bind, Option.bind_some]
    rw [later]
    rfl

theorem length_le_placesOf (n : Nat) (vs : List Value) : vs.length ≤ (placesOf n vs).length := by
  induction vs generalizing n with
  | nil => exact Nat.le_refl _
  | cons v vs ih =>
    cases vs with
    | nil => exact Nat.le_refl _
    | cons w vs =>
      have later := ih (n + 1)
      simp only [placesOf, List.length_cons] at later ⊢
      omega

theorem lexemes_pos (t : Term) (n : Nat) : 0 < (t.lexemes n).length := by
  cases t with
  | member v negated vs =>
    simp only [lexemes, List.length_append, List.length_cons]
    omega
  | isNull | notNull | compare | compareReal | like | constant => simp [lexemes]

/-- The grammar reads a term off the front and goes on with what follows it. -/
theorem expr_lexemes (t : Term) (n : Nat) (weak : least ≤ 3) (loose : Loose rest) (enough : 4 * (t.lexemes n).length + 3 ≤ fuel) :
    ∃ k, fuel ≤ k + 2 ∧ Grammar.expr fuel least (t.lexemes n ++ rest) = Grammar.operators k least (t.expr n) rest := by
  cases t with
  | isNull v =>
    obtain ⟨k, rfl⟩ := Nat.exists_eq_add_of_le' (show 11 ≤ fuel by simp [lexemes] at enough; omega)
    refine ⟨k + 9, Nat.le_refl _, ?_⟩
    rw [lexemes, List.append_assoc]
    exact v.expr_isNull weak loose
  | notNull v =>
    obtain ⟨k, rfl⟩ := Nat.exists_eq_add_of_le' (show 11 ≤ fuel by simp [lexemes] at enough; omega)
    refine ⟨k + 9, Nat.le_refl _, ?_⟩
    rw [lexemes, List.append_assoc]
    exact v.expr_notNull weak loose
  | compare v op value =>
    obtain ⟨k, rfl⟩ := Nat.exists_eq_add_of_le' (show 11 ≤ fuel by simp [lexemes] at enough; omega)
    refine ⟨k + 9, Nat.le_refl _, ?_⟩
    rw [lexemes, List.append_assoc]
    exact v.expr_compare weak loose op
  | compareReal v op value =>
    obtain ⟨k, rfl⟩ := Nat.exists_eq_add_of_le' (show 13 ≤ fuel by simp [lexemes] at enough; omega)
    refine ⟨k + 11, Nat.le_refl _, ?_⟩
    rw [lexemes, List.append_assoc, List.append_assoc]
    exact v.expr_compareReal weak loose op
  | member v negated vs =>
    have short := length_le_placesOf n vs
    have long : vs.length + 11 ≤ fuel := by
      simp only [lexemes, List.length_append, List.length_cons] at enough
      omega
    obtain ⟨k, rfl⟩ := Nat.exists_eq_add_of_le' (Nat.le_trans (Nat.le_add_left 11 _) long)
    have listed : Grammar.list (k + 9) (placesOf n vs ++ .symbol ")" :: rest) = some (places n vs, rest)
        ∨ (placesOf n vs ++ .symbol ")" :: rest = .symbol ")" :: rest ∧ places n vs = []) := by
      cases vs with
      | nil => exact .inr ⟨rfl, rfl⟩
      | cons w vs => exact .inl (list_placesOf w vs n (by simp at long; omega))
    refine ⟨k + 9, Nat.le_refl _, ?_⟩
    simp only [lexemes, List.append_assoc, List.cons_append, List.nil_append]
    exact v.expr_member weak negated listed
  | like v pattern =>
    obtain ⟨k, rfl⟩ := Nat.exists_eq_add_of_le' (show 11 ≤ fuel by simp [lexemes] at enough; omega)
    refine ⟨k + 9, Nat.le_refl _, ?_⟩
    rw [lexemes, List.append_assoc]
    exact v.expr_like weak loose
  | constant b =>
    obtain ⟨k, rfl⟩ := Nat.exists_eq_add_of_le' (show 2 ≤ fuel by omega)
    refine ⟨k + 1, Nat.le_succ _, ?_⟩
    cases b <;> rfl

end Term

/-! ## Conjunctions -/

namespace Predicate

/-- The conjunction of an expression and the terms, their values numbered on from `n`. -/
def conjoined (x : Expr) (n : Nat) : Predicate → Expr
  | [] => x
  | t :: ts => conjoined (binaryForm .and x (t.expr n)) (n + t.params.length) ts

/-- The condition of a predicate with at least one term, its values numbered on from `n`. -/
def expr (n : Nat) (t : Term) (ts : Predicate) : Expr := conjoined (t.expr n) (n + t.params.length) ts

variable (stops : connective? rest = none)

include stops

/-- Nothing that binds strongly follows a term. -/
theorem loose_andLexemes (ts : Predicate) (n : Nat) : Loose (andLexemes n ts ++ rest) := by
  cases ts with
  | nil => exact loose_of_none stops
  | cons t ts =>
    intro c found
    obtain rfl : _ = c := Option.some.inj found
    exact Nat.lt_succ_self 2

/-- The terms are taken in one by one, each as the right side of what there is. -/
theorem operators_andLexemes (ts : Predicate) (n : Nat) (enough : 4 * (andLexemes n ts).length + 1 ≤ fuel) :
    Grammar.operators fuel 0 x (andLexemes n ts ++ rest) = some (conjoined x n ts, rest) := by
  induction ts generalizing x n fuel with
  | nil =>
    obtain ⟨k, rfl⟩ := Nat.exists_eq_add_of_le' (show 1 ≤ fuel from enough)
    exact operators_of_none stops
  | cons t ts ih =>
    simp only [andLexemes, List.length_cons, List.length_append] at enough
    obtain ⟨k, rfl⟩ := Nat.exists_eq_add_of_le' (show 1 ≤ fuel by omega)
    have and_ : connective? (.word "AND" :: (t.lexemes n ++ (andLexemes (n + t.params.length) ts ++ rest)))
        = some (.binary .and, 2, t.lexemes n ++ (andLexemes (n + t.params.length) ts ++ rest)) := rfl
    have loose := loose_andLexemes stops ts (n + t.params.length)
    have term : Grammar.expr k 3 (t.lexemes n ++ (andLexemes (n + t.params.length) ts ++ rest))
        = some (t.expr n, andLexemes (n + t.params.length) ts ++ rest) := by
      obtain ⟨j, spare, read⟩ := t.expr_lexemes n (Nat.le_refl 3) loose (show 4 * (t.lexemes n).length + 3 ≤ k by omega)
      obtain ⟨i, rfl⟩ : ∃ i, j = i + 1 := Nat.exists_eq_add_of_le' (by omega)
      rw [read]
      exact operators_of_loose loose (Nat.le_refl 3)
    rw [andLexemes, List.cons_append, List.append_assoc, operators_binary and_ (Nat.zero_le _) term, conjoined]
    exact ih _ (by omega)

/-- The grammar reads the conjunction of the terms. -/
theorem expression_lexemes (n : Nat) (t : Term) (ts : Predicate) :
    Grammar.expression (lexemes n (t :: ts) ++ rest) = some (expr n t ts, rest) := by
  have pos := t.lexemes_pos n
  have loose := loose_andLexemes stops ts (n + t.params.length)
  rw [lexemes, List.append_assoc, Grammar.expression]
  obtain ⟨k, spare, read⟩ := t.expr_lexemes n (Nat.zero_le 3) loose
    (show _ ≤ 4 * (t.lexemes n ++ (andLexemes (n + t.params.length) ts ++ rest)).length + 4 by
      simp only [List.length_append]
      omega)
  rw [read]
  refine operators_andLexemes stops ts _ ?_
  simp only [List.length_append] at spare
  omega

end Predicate

end Dossier
