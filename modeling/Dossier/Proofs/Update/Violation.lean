import Dossier.Proofs.Filter.Selecting
import Dossier.Proofs.Statement.Deciding
import Dossier.Proofs.Statement.Queries

/-!
# Guards by their text

What the engine reads in the text of a guard has for every row the truth that the guard has for its body
(`Guard.truthOf?_text`): `json_type` and `json_extract` find what the body holds at a path, and compare it as null where
it holds nothing.
-/

namespace Dossier

open Text Sql Raw Grammar

variable {ls rest : List Lexeme} {t : Table} {params : List Value} {n k : Nat} {path : FieldPath} {op : Value.Comparison}
  {x e y : Expr} {w : Value} {read : Row → Value}

/-! ## Comparisons with constants -/

namespace Sql.Expr

/-- The expression is read from every row in the same way, and is compared as it is. -/
structure Reads (t : Table) (params : List Value) (x : Expr) (read : Row → Value) (e : Expr) : Prop where
  known : x.resolve t.scope = some e
  affinity : e.affinity = .none
  collation : e.collation? = none
  value : ∀ r : Row, e.eval r.look params = some (read r)

theorem Decides.congr {f g : Row → Truth} (h : x.Decides t params f) (same : ∀ row, f row = g row) : x.Decides t params g := by
  rwa [← show f = g from funext same]

theorem decides_constant (reads : Reads t params x read e) (op : Value.Comparison) (w : Value) :
    (Expr.binary (.compare op) x (.value w)).Decides t params fun r => Value.test op .none .binary (read r) w := by
  have constant : truthConstant? t.scope (.value w) = none := rfl
  refine ⟨.binary (.compare op) e (.value w), by simp [resolve, reads.known], fun r => ?_⟩
  have value : e.eval (fun place => r.column place.column) params = some (read r) := reads.value r
  have between : e.affinity.between .none = .none := by rw [reads.affinity]; rfl
  simp [Expr.holds, eval, value, settled?, combine, commonAffinity, commonCollation, reads.collation, Expr.affinity,
    Expr.collation?, between, Value.truth_ofTruth]

/-- Membership in a list of constants. -/
theorem decides_constants (reads : Reads t params x read e) (ws : List Value) :
    (memberForm x (ws.map .value)).Decides t params fun r => Value.member .none .binary (read r) ws := by
  induction ws with
  | nil => exact decides_value (.ofBool false)
  | cons w ws ih =>
    have equality : (Expr.binary .element x (.value w)).Decides t params fun r => Value.test .eq .none .binary (read r) w := by
      refine ⟨.binary .element e (.value w), by simp [resolve, reads.known], fun r => ?_⟩
      have value : e.eval (fun place => r.column place.column) params = some (read r) := reads.value r
      simp [Expr.holds, eval, value, settled?, combine, reads.affinity, reads.collation, Value.truth_ofTruth]
    exact equality.or ih

end Sql.Expr

namespace Guard

/-! ## Types -/

/-- `json_type` at a path, as lexemes and as an expression. -/
def typeLexemes (path : FieldPath) : List Lexeme :=
  [.word "json_type", .symbol "(", .word bodyColumn, .symbol ",", .string path.jsonPath, .symbol ")"]
def typeExpr (path : FieldPath) : Expr := .binary .typeAt (.name none bodyColumn false) (.value (.text path.jsonPath))

/-- The type of what the body holds at a path. -/
def typeIn (path : FieldPath) (body : Tree) : Value := ((body.lookup? path.segments).map fun t => Value.text t.typeName).getD .null

theorem spells_typeText (path : FieldPath) (rest : List Char) : Spells rest (typeText path) 0 fun _ => typeLexemes path := by
  have front : "json_type(" ++ bodyColumn ++ ", " = "json_type(data, " := by decide
  have lexemes : phrase "json_type(data, " = [.word "json_type", .symbol "(", .word bodyColumn, .symbol ","] := phrase_eq (by decide)
  have call := path.spells_call "json_type(data, " (by decide) rest
  rw [lexemes] at call
  rw [typeText, front]
  exact call

theorem head?_typeText (path : FieldPath) : (typeText path).toList.head? = some 'j' :=
  head?_append (head?_append (head?_append (head?_append (by decide) _) _) _) _

theorem head?_extractText (path : FieldPath) : (extractText bodyColumn path).toList.head? = some 'j' := by
  rw [extractText_eq]
  exact head?_append (head?_append (head?_append (head?_append (by decide) _) _) _) _

theorem spells_extractText (path : FieldPath) (rest : List Char) :
    Spells rest (extractText bodyColumn path) 0 fun _ => (Operand.extract path).lexemes := by
  have front : "json_extract(" ++ bodyColumn ++ ", " = "json_extract(data, " := by decide
  have lexemes : phrase "json_extract(data, " = [.word "json_extract", .symbol "(", .word bodyColumn, .symbol ","] :=
    phrase_eq (by decide)
  have call := path.spells_call "json_extract(data, " (by decide) rest
  rw [lexemes] at call
  rw [extractText_eq, front]
  exact call

theorem reads_type (path : FieldPath) : Expr.Reads t params (typeExpr path) (fun row => typeIn path row.data.tree)
    (.binary .typeAt (.column ⟨.current, .data⟩) (.value (.text path.jsonPath))) where
  known := rfl
  affinity := rfl
  collation := rfl
  value row := row.data.lookupIn?_jsonPath (fun t => .text t.typeName) path

theorem test_text (a b : String) : Value.test .eq .none .binary (.text a) (.text b) = some (a == b) := by
  have ordered : Value.compare? .none .binary (.text a) (.text b) = some (Value.textOrder a.toList b.toList) := rfl
  rw [Value.test, ordered, Option.map_some, Option.some.injEq, Bool.eq_iff_iff]
  show (_ == Ordering.eq) = true ↔ _
  rw [beq_iff_eq, Value.textOrder_eq_eq, String.toList_inj, beq_iff_eq]

/-! ## Guards -/

/-- The lexemes of a bound. -/
def boundLexemes (path : FieldPath) (op : Value.Comparison) (n : Nat) : List Lexeme :=
  .symbol "(" :: (typeLexemes path ++ .symbol "=" :: .string "integer" :: .word "AND"
    :: ((Operand.extract path).lexemes ++ [.symbol op.text, .param n, .symbol ")"]))

/-- The lexemes of a guard, its values numbered on from `n`. -/
def lexemes : Guard → (n : Nat) → List Lexeme
  | notAContainer _ ancestor, _ => typeLexemes ancestor ++ [.symbol "<>", .string "object"]
  | notANumber path, _ =>
    typeLexemes path ++ [.word "NOT", .word "IN", .symbol "(", .string "integer", .symbol ",", .string "real", .symbol ")"]
  | tooGreat path _, n => boundLexemes path .gt n
  | tooSmall path _, n => boundLexemes path .lt n

/-- A bound as an expression. -/
def boundExpr (path : FieldPath) (op : Value.Comparison) (n : Nat) : Expr :=
  binaryForm .and (.binary (.compare .eq) (typeExpr path) (.value (.text "integer")))
    (.binary (.compare op) (Operand.extract path).expr (.param n))

/-- The guard as an expression, its values numbered on from `n`. -/
def expr : Guard → (n : Nat) → Expr
  | notAContainer _ ancestor, _ => .binary (.compare .ne) (typeExpr ancestor) (.value (.text "object"))
  | notANumber path, _ => negateIf true (memberForm (typeExpr path) ([.text "integer", .text "real"].map .value))
  | tooGreat path _, n => boundExpr path .gt n
  | tooSmall path _, n => boundExpr path .lt n

theorem spells_boundText (path : FieldPath) (op : Value.Comparison) (rest : List Char) :
    Spells rest (boundText path op) 1 (boundLexemes path op) := by
  have opens : phrase "(" = [.symbol "("] := phrase_eq (by decide)
  have both : phrase " = 'integer' AND " = [.symbol "=", .string "integer", .word "AND"] := phrase_eq (by decide)
  have place : " ?)" = " ?" ++ ")" := by decide
  have compared : Spells (")".toList ++ rest) (" " ++ op.text ++ " ?") 1 fun n => [.symbol op.text, .param n] := by
    refine .of_standing [.space, ⟨.symbol, op.text.toList⟩, .space, .mark] ?_ ?_
      (Term.standing_comparison op (gap_cons (.inr (.inr rfl)))) fun us n names room => ?_
    · simp [Token.space, Token.mark, String.toList_append]
    · cases op <;> decide
    · simp only [List.cons_append, List.nil_append, lexemesFrom_space, lexemesFrom_symbol, lexemesFrom_mark _ room, Option.map_map]
      rfl
  have first (cs : List Char) : Spells ((typeText path).toList ++ cs) "(" 0 fun _ => phrase "(" :=
    .before (head?_typeText path) (by decide)
  have middle (cs : List Char) : Spells ((extractText bodyColumn path).toList ++ cs) " = 'integer' AND " 0 fun _ => phrase " = 'integer' AND " :=
    .before (head?_extractText path) (by decide)
  have whole := (((((first _).append (spells_typeText path _)).append (middle _)).append (spells_extractText path _)).append
    compared).append (.close rest)
  have text : "(" ++ typeText path ++ " = 'integer' AND " ++ extractText bodyColumn path ++ (" " ++ op.text ++ " ?") ++ ")"
      = boundText path op := by
    rw [boundText, place]
    simp only [String.append_assoc]
  rw [text] at whole
  refine whole.congr fun n => ?_
  rw [opens, both, boundLexemes]
  simp

/-- The text of a guard before a gap. -/
theorem spells_text (g : Guard) {rest : List Char} (gap : Gap rest) : Spells rest g.text g.params.length g.lexemes := by
  cases g with
  | notAContainer path ancestor =>
    have object : phrase " <> 'object'" = [.symbol "<>", .string "object"] := phrase_eq (by decide)
    have last : Spells rest " <> 'object'" 0 fun _ => phrase " <> 'object'" := by
      refine .of_phrase (by decide) fun u last => ?_
      obtain rfl : (⟨.string, "'object'".toList⟩ : Token) = u := Option.some.inj last
      exact gap.ends rfl rfl rfl
    exact ((spells_typeText ancestor _).append last).congr fun n => by rw [object]; rfl
  | notANumber path =>
    have number : phrase " NOT IN ('integer', 'real')" = [.word "NOT", .word "IN", .symbol "(", .string "integer", .symbol ",",
      .string "real", .symbol ")"] := phrase_eq (by decide)
    have last : Spells rest " NOT IN ('integer', 'real')" 0 fun _ => phrase " NOT IN ('integer', 'real')" := by
      refine .of_phrase (by decide) fun u last => ?_
      obtain rfl : (⟨.symbol, ")".toList⟩ : Token) = u := Option.some.inj last
      exact gap.ends rfl rfl rfl
    exact ((spells_typeText path _).append last).congr fun n => by rw [number]; rfl
  | tooGreat path bound => exact spells_boundText path .gt rest
  | tooSmall path bound => exact spells_boundText path .lt rest

theorem operand_type (path : FieldPath) (k : Nat) : operand (k + 9) (typeLexemes path ++ ls) = some (typeExpr path, ls) := rfl

theorem expr_bound (path : FieldPath) (op : Value.Comparison) (n : Nat) (stops : connective? rest = none) (k : Nat) :
    Grammar.expr (k + 30) 0 (boundLexemes path op n ++ rest) = some (boundExpr path op n, rest) := by
  generalize after : (.symbol op.text :: .param n :: .symbol ")" :: rest : List Lexeme) = ms
  have compared : Grammar.expr (k + 25) 3 ((Operand.extract path).lexemes ++ ms)
      = some (.binary (.compare op) (Operand.extract path).expr (.param n), .symbol ")" :: rest) := by
    rw [← after, (Operand.extract path).expr_compare (by decide) (loose_of_none rfl) op]
    exact operators_of_none rfl
  generalize conjunct : (.word "AND" :: ((Operand.extract path).lexemes ++ ms) : List Lexeme) = cs
  have integer : Grammar.expr (k + 26) 5 (.string "integer" :: cs) = some (.value (.text "integer"), cs) := by
    refine expr_of_operand rfl (fun c found => ?_) (by decide)
    rw [← conjunct] at found
    obtain rfl : _ = c := Option.some.inj found
    exact Nat.lt_succ_self 2
  have equal : connective? (.symbol "=" :: .string "integer" :: cs) = some (.binary (.compare .eq), 4, .string "integer" :: cs) := rfl
  have and_ : connective? cs = some (.binary .and, 2, (Operand.extract path).lexemes ++ ms) := by
    rw [← conjunct]
    rfl
  have inner : Grammar.expr (k + 28) 0 (typeLexemes path ++ .symbol "=" :: .string "integer" :: cs)
      = some (boundExpr path op n, .symbol ")" :: rest) := by
    rw [Grammar.expr, operand_type path (k + 18)]
    simp only [Option.bind_eq_bind, Option.bind_some]
    rw [operators_plain (by decide) equal (by decide) integer, operators_binary and_ (by decide) compared]
    exact operators_of_none rfl
  have lexemes : boundLexemes path op n ++ rest = .symbol "(" :: (typeLexemes path ++ .symbol "=" :: .string "integer" :: cs) := by
    rw [← conjunct, ← after, boundLexemes]
    simp
  have parenthesis : operand (k + 29) (boundLexemes path op n ++ rest) = some (boundExpr path op n, rest) := by
    rw [lexemes, operand.eq_def]
    simp only [inner, Option.bind_eq_bind, Option.bind_some]
    rfl
  rw [Grammar.expr, parenthesis]
  exact operators_of_none stops

/-- The grammar reads a guard where no operator follows. -/
theorem expr_lexemes (g : Guard) (n : Nat) (stops : connective? rest = none) (k : Nat) :
    Grammar.expr (k + 30) 0 (g.lexemes n ++ rest) = some (g.expr n, rest) := by
  cases g with
  | notAContainer path ancestor =>
    have other : connective? (.symbol "<>" :: .string "object" :: rest) = some (.binary (.compare .ne), 4, .string "object" :: rest) := rfl
    have object : Grammar.expr (k + 28) 5 (.string "object" :: rest) = some (.value (.text "object"), rest) :=
      expr_of_operand rfl (loose_of_none stops) (by decide)
    rw [lexemes, List.append_assoc, Grammar.expr, operand_type ancestor (k + 20)]
    simp only [Option.bind_eq_bind, Option.bind_some, List.cons_append, List.nil_append]
    rw [operators_plain (by decide) other (by decide) object]
    exact operators_of_none stops
  | notANumber path =>
    have notIn : connective? (.word "NOT" :: .word "IN" :: .symbol "(" :: .string "integer" :: .symbol "," :: .string "real"
        :: .symbol ")" :: rest) = some (.member true, 3, .symbol "(" :: .string "integer" :: .symbol "," :: .string "real"
        :: .symbol ")" :: rest) := rfl
    have listed : Grammar.list (k + 28) (.string "integer" :: .symbol "," :: .string "real" :: .symbol ")" :: rest)
        = some ([.value (.text "integer"), .value (.text "real")], rest) := rfl
    rw [lexemes, List.append_assoc, Grammar.expr, operand_type path (k + 20)]
    simp only [Option.bind_eq_bind, Option.bind_some, List.cons_append, List.nil_append]
    rw [operators_member notIn (by decide) (.inl listed)]
    exact operators_of_none stops
  | tooGreat path bound => exact expr_bound path .gt n stops k
  | tooSmall path bound => exact expr_bound path .lt n stops k

/-! ## Truth -/

theorem decides_bound (path : FieldPath) (op : Value.Comparison) {bound : Int} (placed : Value.Placed params n [.integer bound]) :
    (boundExpr path op n).Decides t params fun row => pastBound row.data.tree path op bound := by
  have typed : Expr.Reads t params (typeExpr path) _ _ := reads_type path
  have integral := Expr.decides_constant typed .eq (.text "integer")
  obtain ⟨e, reads⟩ := Operand.exists_reads (v := .extract path) (t := t) trivial
  have past := Term.decides_compare reads.known reads.affinity reads.collation (fun r => reads.value r params) op placed
  refine (integral.and past).congr fun row => ?_
  have extracted : row.read (.extract path) = ((row.data.tree.lookup? path.segments).map Tree.value).getD .null := rfl
  rw [extracted, typeIn, pastBound]
  cases row.data.tree.lookup? path.segments with
  | none => rfl
  | some found =>
    rw [Option.map_some, Option.getD_some, test_text]
    rfl

/-- The expression of a guard has for every row the truth that the guard has for its body. -/
theorem decides_expr (g : Guard) (placed : Value.Placed params n g.params) :
    (g.expr n).Decides t params fun row => g.holds row.data.tree := by
  cases g with
  | notAContainer path ancestor =>
    refine (Expr.decides_constant (reads_type ancestor) .ne (.text "object")).congr fun row => ?_
    rw [typeIn, Guard.holds, Value.test_ne]
    cases row.data.tree.lookup? ancestor.segments with
    | none => rfl
    | some found =>
      rw [Option.map_some, Option.getD_some, test_text]
      rfl
  | notANumber path =>
    refine (Expr.decides_constants (reads_type path) [.text "integer", .text "real"]).not.congr fun row => ?_
    rw [typeIn, Guard.holds]
    cases row.data.tree.lookup? path.segments with
    | none => rfl
    | some found =>
      rw [Option.map_some, Option.getD_some]
      simp only [Value.member, List.foldr_cons, List.foldr_nil, test_text, Option.map_some, bne]
      cases found.typeName == "integer" <;> cases found.typeName == "real" <;> rfl
  | tooGreat path bound => exact decides_bound path .gt placed
  | tooSmall path bound => exact decides_bound path .lt placed

/-- The engine that is given the text of a guard finds its truth for the body of a row. -/
theorem truthOf?_text (g : Guard) (t : Table) (row : Row) : row.truthOf? t g.params g.text = some (g.holds row.data.tree) := by
  have few : g.params.length ≤ limits.values := by cases g <;> first | exact Nat.zero_le _ | exact (by decide : 1 ≤ limits.values)
  have spells := g.spells_text gap_nil
  have whole : expression (g.lexemes 0) = some (g.expr 0, []) := by
    obtain ⟨k, fuel⟩ : ∃ k, 4 * (g.lexemes 0).length + 4 = k + 30 :=
      Nat.exists_eq_add_of_le' (by cases g <;> simp [lexemes, boundLexemes, typeLexemes, Operand.lexemes])
    have stops : connective? [] = none := rfl
    have read := g.expr_lexemes 0 stops k
    rwa [List.append_nil, ← fuel] at read
  obtain ⟨resolved, known, holds⟩ := g.decides_expr (t := t) (.whole g.params)
  rw [Row.truthOf?, whole?_of_spells spells few, whole]
  simp only [Option.bind_eq_bind, Option.bind_some, known]
  exact holds row

end Guard

end Dossier
