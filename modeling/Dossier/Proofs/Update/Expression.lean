import Dossier.Proofs.Json.Stored
import Dossier.Proofs.Update.Violation

/-!
# Changes by their text

What the engine makes of the text of changes and their values is the changed body (`Changes.documentOf?_text`), if no function
has too many arguments and no value stands too deep: the paths to remove are read as the arguments of one `json_remove`, the
values and the sums as those of one `json_set` around it, each with the next value.
-/

namespace Dossier

open Text Sql Raw Grammar

variable {ls rest : List Lexeme} {t : Table} {params : List Value} {n k fuel : Nat}

/-! ## Spelling -/

namespace Assignment

/-- The lexemes of a path and what is written there, the value of its placeholder with the number `n`. -/
def lexemes : Assignment → (n : Nat) → List Lexeme
  | document path _, n => [.string path.jsonPath, .symbol ",", .word "json", .symbol "(", .param n, .symbol ")"]
  | sum path _, n => .string path.jsonPath :: .symbol "," :: .word "COALESCE" :: .symbol "("
      :: ((Operand.extract path).lexemes ++ [.symbol ",", .whole 0, .symbol ")", .symbol "+", .param n])

theorem spells_expression (a : Assignment) {rest : List Char} (gap : Gap rest) : ∃ ls, Spells rest a.expression 1 ls
    ∧ (∀ more, Ends Value.isPadding (a.expression.toList ++ more)) ∧ ∀ n, a.lexemes n = .string a.path.jsonPath :: .symbol "," :: ls n := by
  cases a with
  | document path v =>
    have front : phrase "json(" = [.word "json", .symbol "("] := phrase_eq (by decide)
    have opens : Spells ("?".toList ++ (")".toList ++ rest)) "json(" 0 fun _ => phrase "json(" := .before (c := '?') rfl (by decide)
    have place : Spells (")".toList ++ rest) "?" 1 fun n => [.param n] := .mark (by exact ends_cons (by decide))
    have whole := (opens.append place).append (.close rest)
    refine ⟨_, whole, fun more => ?_, fun n => ?_⟩
    · have starts : "json(?)".toList.head? = some 'j' := by decide
      exact ends_of_head? starts (by decide) more
    · rw [front]
      rfl
  | sum path delta =>
    have front : phrase "COALESCE(" = [.word "COALESCE", .symbol "("] := phrase_eq (by decide)
    have back : phrase ", 0) + " = [.symbol ",", .whole 0, .symbol ")", .symbol "+"] := phrase_eq (by decide)
    have place : ", 0) + ?" = ", 0) + " ++ "?" := by decide
    have opens (cs : List Char) : Spells ((extractText bodyColumn path).toList ++ cs) "COALESCE(" 0 fun _ => phrase "COALESCE(" :=
      .before (Guard.head?_extractText path) (by decide)
    have closes : Spells ("?".toList ++ rest) ", 0) + " 0 fun _ => phrase ", 0) + " := .before (c := '?') rfl (by decide)
    have whole := (((opens _).append (Guard.spells_extractText path _)).append closes).append
      (.mark (gap.ends (by decide) (by decide) (by decide)))
    have text : "COALESCE(" ++ extractText bodyColumn path ++ ", 0) + " ++ "?" = (sum path delta).expression := by
      rw [expression, place]
      simp only [String.append_assoc]
    rw [text] at whole
    refine ⟨_, whole, fun more => ?_, fun n => ?_⟩
    · exact ends_of_head? (c := 'C') (head?_append (head?_append (by decide) _) _) (by decide) more
    · rw [front, back, lexemes]
      simp
      rfl

/-- A path and what is written there before a gap. -/
theorem spells_text (a : Assignment) {rest : List Char} (gap : Gap rest) : Spells rest a.text 1 a.lexemes := by
  obtain ⟨ls, written, starts, lexemes⟩ := a.spells_expression gap
  have comma : Spells (a.expression.toList ++ rest) ", " 0 fun _ => phrase ", " := .spaced (by decide) (by decide) (starts rest)
  have ends : Ends (· == '\'') (", ".toList ++ (a.expression.toList ++ rest)) := ends_cons (by decide)
  have literal := a.path.spells_literal ends
  have whole := (literal.append comma).append written
  refine whole.congr fun n => ?_
  rw [lexemes]
  rfl

theorem starts_text (a : Assignment) (rest : List Char) : Ends Value.isPadding (a.text.toList ++ rest) := by
  rw [text, String.append_assoc]
  exact a.path.starts_literal _ rest

end Assignment

namespace Changes

variable {c : Changes}

/-- The lexemes of the body without the removed paths. -/
def removalLexemes (c : Changes) : List Lexeme :=
  if c.unset.isEmpty then [.word bodyColumn]
  else .word "json_remove" :: .symbol "(" :: .word bodyColumn
    :: (listed (fun _ => 0) (fun path _ => [.string path.jsonPath]) c.unset 0 ++ [.symbol ")"])

/-- The lexemes of the changed body, its values numbered on from `n`. -/
def lexemes (c : Changes) (n : Nat) : List Lexeme :=
  if c.assignments.isEmpty then c.removalLexemes
  else .word "json_set" :: .symbol "("
    :: (c.removalLexemes ++ (listed (fun _ => 1) Assignment.lexemes c.assignments n ++ [.symbol ")"]))

theorem listed_constants (paths : List FieldPath) (n m : Nat) : listed (fun _ => 0) (fun path _ => [Lexeme.string path.jsonPath]) paths n
    = listed (fun _ => 0) (fun path _ => [.string path.jsonPath]) paths m := by
  induction paths with
  | nil => rfl
  | cons path paths ih => exact congrArg (fun ls => _ :: ([.string path.jsonPath] ++ ls)) ih

theorem spells_removalText (c : Changes) {rest : List Char} (gap : Gap rest) :
    Spells rest c.removalText 0 fun _ => c.removalLexemes := by
  have data : phrase "data" = [.word bodyColumn] := phrase_eq (by decide)
  have body (more : List Char) (gap : Gap more) : Spells more "data" 0 fun _ => phrase "data" := by
    refine .of_phrase (by decide) fun u last => ?_
    obtain rfl : (⟨.word, "data".toList⟩ : Token) = u := Option.some.inj last
    exact gap.takesIn_word
  unfold removalText removalLexemes
  split
  · exact (body rest gap).congr fun _ => data
  · rename_i some_
    have front : phrase "json_remove(data" = [.word "json_remove", .symbol "(", .word bodyColumn] := phrase_eq (by decide)
    have paths : Spells (")".toList ++ rest) (", " ++ commaList (c.unset.map FieldPath.literal)) (c.unset.map fun _ => 0).sum
        (listed (fun _ => 0) (fun path _ => [.string path.jsonPath]) c.unset) :=
      .listed (by simpa using some_) (gap_cons (.inr (.inr rfl)))
        (fun path _ more gap => path.spells_literal (gap.ends (by decide) (by decide) (by decide)))
        fun path _ more => by simpa using path.starts_literal "" more
    have opens : Spells ((", " ++ commaList (c.unset.map FieldPath.literal)).toList ++ (")".toList ++ rest)) "json_remove(data" 0
        fun _ => phrase "json_remove(data" :=
      .before (c := ',') (head?_append (by decide) _) (by decide)
    have whole := (opens.append paths).append (.close rest)
    have text : "json_remove(data" ++ (", " ++ commaList (c.unset.map FieldPath.literal)) ++ ")"
        = "json_remove(" ++ bodyColumn ++ ", " ++ commaList (c.unset.map FieldPath.literal) ++ ")" := by
      have front : "json_remove(data" = "json_remove(" ++ bodyColumn := by decide
      rw [front]
      simp only [String.append_assoc]
    rw [text] at whole
    refine (whole.congr fun n => ?_).count (by simp)
    rw [front, listed_constants c.unset (n + 0) 0]
    simp

theorem head?_removalText (c : Changes) : c.removalText.toList.head? = some 'd' ∨ c.removalText.toList.head? = some 'j' := by
  unfold removalText
  split
  · exact .inl (by decide)
  · exact .inr (head?_append (head?_append (head?_append (head?_append (by decide) _) _) _) _)

/-- The text of changes before a gap. -/
theorem spells_expressionText (c : Changes) {rest : List Char} (gap : Gap rest) :
    Spells rest c.expressionText c.expressionParams.length c.lexemes := by
  have count : (c.assignments.map fun _ => 1).sum = c.expressionParams.length := by simp [expressionParams]
  unfold expressionText
  split
  · rename_i none_
    refine ((c.spells_removalText gap).congr fun n => ?_).count ?_
    · rw [lexemes, if_pos none_]
    · rw [expressionParams, List.isEmpty_iff.1 none_]
      rfl
  · rename_i some_
    have front : phrase "json_set(" = [.word "json_set", .symbol "("] := phrase_eq (by decide)
    have written : Spells (")".toList ++ rest) (", " ++ commaList (c.assignments.map Assignment.text)) (c.assignments.map fun _ => 1).sum
        (listed (fun _ => 1) Assignment.lexemes c.assignments) :=
      .listed (by simpa using some_) (gap_cons (.inr (.inr rfl))) (fun a _ more gap => a.spells_text gap) fun a _ => a.starts_text
    have comma : Gap ((", " ++ commaList (c.assignments.map Assignment.text)).toList ++ (")".toList ++ rest)) :=
      gap_of_head? (head?_append (by decide) _) (.inr (.inl rfl)) _
    have opens (cs : List Char) : Spells (c.removalText.toList ++ cs) "json_set(" 0 fun _ => phrase "json_set(" := by
      rcases c.head?_removalText with starts | starts <;> exact .before starts (by decide)
    have whole := (((opens _).append (c.spells_removalText comma)).append written).append (.close rest)
    have text : "json_set(" ++ c.removalText ++ (", " ++ commaList (c.assignments.map Assignment.text)) ++ ")"
        = "json_set(" ++ c.removalText ++ ", " ++ commaList (c.assignments.map Assignment.text) ++ ")" := by
      simp only [String.append_assoc]
    rw [text] at whole
    refine (whole.congr fun n => ?_).count (by rw [count]; simp)
    rw [front, lexemes, if_neg some_]
    simp

end Changes

/-! ## Reading -/

namespace Sql.Edit

theorem read_source (stops : Stops rest) :
    Edit.read (k + 1) (.word bodyColumn :: rest) = some (.source (.name none bodyColumn false), rest) := by
  have name : expression (.word bodyColumn :: rest) = some (.name none bodyColumn false, rest) := expression_name (by decide) stops
  rw [Edit.read, name]
  · rfl
  · exact fun f after eq => (stops.apart "(" after (List.cons.inj eq).2).1 rfl

theorem paths_listed (paths : List FieldPath) (n : Nat) (rest : List Lexeme) (enough : paths.length < fuel) :
    Edit.paths fuel (listed (fun _ => 0) (fun path _ => [.string path.jsonPath]) paths n ++ .symbol ")" :: rest)
      = some (paths.map fun path => .value (.text path.jsonPath), rest) := by
  obtain ⟨k, rfl⟩ := Nat.exists_eq_add_of_le' (show 1 ≤ fuel by omega)
  induction paths generalizing n k with
  | nil => rfl
  | cons path paths ih =>
    obtain ⟨j, rfl⟩ : ∃ j, k = j + 1 := Nat.exists_eq_add_of_le' (by simp at enough; omega)
    have later := ih (n + 0) j (by simp at enough ⊢; omega)
    generalize after : listed (fun _ => 0) (fun path _ => [.string path.jsonPath]) paths (n + 0) ++ .symbol ")" :: rest = ms at later
    have literal : expression (.string path.jsonPath :: ms) = some (.value (.text path.jsonPath), ms) := by
      refine expression_single (fun _ => rfl) ?_
      rw [← after]
      cases paths <;> rfl
    have comma : takeSymbol "," (.symbol "," :: .string path.jsonPath :: ms) = some (.string path.jsonPath :: ms) := rfl
    have lexemes : listed (fun _ => 0) (fun path _ => [.string path.jsonPath]) (path :: paths) n ++ .symbol ")" :: rest
        = .symbol "," :: .string path.jsonPath :: ms := by
      rw [← after]
      simp [listed]
    rw [lexemes, Edit.paths]
    · simp only [comma, literal, later, Option.bind_eq_bind, Option.bind_some]
      rfl
    · exact fun more eq => absurd (Lexeme.symbol.inj (List.cons.inj eq).1) (by decide)

end Sql.Edit

namespace Assignment

/-- What is written, as an expression, the value of its placeholder with the number `n`. -/
def expr : Assignment → (n : Nat) → Expr
  | document _ _, n => .param n
  | sum path _, n => .binary .add (.binary .ifNull (Operand.extract path).expr (.value (.integer 0))) (.param n)

/-- The assignment as a pair of arguments. -/
def pair (a : Assignment) (n : Nat) : Pair where
  path := .value (.text a.path.jsonPath)
  value := a.expr n
  isDocument := match a with
    | document .. => true
    | sum .. => false

/-- Assignments as pairs, their values numbered on from `n`. -/
def pairs : List Assignment → (n : Nat) → List Pair
  | [], _ => []
  | a :: as, n => a.pair n :: pairs as (n + 1)

/-- What is written is read off the front, up to a comma or a parenthesis. -/
theorem operand_lexemes (a : Assignment) (n : Nat) (stops : Stops rest) : ∃ ls,
    a.lexemes n = .string a.path.jsonPath :: .symbol "," :: ls
      ∧ Edit.operand (.value (.text a.path.jsonPath)) (ls ++ rest) = some (a.pair n, rest) := by
  cases a with
  | document path v =>
    refine ⟨_, rfl, ?_⟩
    have param : Grammar.expression (.param n :: .symbol ")" :: rest) = some (.param n, .symbol ")" :: rest) :=
      expression_single (fun _ => rfl) rfl
    have json : foldCase "json" = "json" := by decide
    simp only [List.cons_append, List.nil_append]
    rw [Edit.operand, if_pos json, param]
    rfl
  | sum path delta =>
    refine ⟨_, rfl, ?_⟩
    have other : foldCase "COALESCE" ≠ "json" := by decide
    have plus : connective? (.symbol "+" :: .param n :: rest) = some (.binary .add, 8, .param n :: rest) := rfl
    have added (k : Nat) : Grammar.expr (k + 2) 9 (.param n :: rest) = some (.param n, rest) :=
      expr_of_operand rfl (loose_of_none stops.connective) (by decide)
    have first (k : Nat) : operand (k + 20) (.word "COALESCE" :: .symbol "(" :: ((Operand.extract path).lexemes
        ++ [.symbol ",", .whole 0, .symbol ")", .symbol "+", .param n]) ++ rest)
        = some (.binary .ifNull (Operand.extract path).expr (.value (.integer 0)), .symbol "+" :: .param n :: rest) := rfl
    have read : Grammar.expression (.word "COALESCE" :: .symbol "(" :: ((Operand.extract path).lexemes
        ++ [.symbol ",", .whole 0, .symbol ")", .symbol "+", .param n]) ++ rest) = some ((sum path delta).expr n, rest) := by
      obtain ⟨k, fuel⟩ : ∃ k, 4 * (.word "COALESCE" :: .symbol "(" :: ((Operand.extract path).lexemes
          ++ [.symbol ",", .whole 0, .symbol ")", .symbol "+", .param n]) ++ rest : List Lexeme).length + 4 = k + 21 :=
        Nat.exists_eq_add_of_le' (by simp [Operand.lexemes]; omega)
      rw [Grammar.expression, fuel, Grammar.expr, first]
      simp only [Option.bind_eq_bind, Option.bind_some]
      rw [operators_plain (by decide) plus (by decide) (added _)]
      exact operators_of_none stops.connective
    simp only [List.cons_append] at read ⊢
    rw [Edit.operand, if_neg other, read]
    rfl

theorem pairs_listed (as : List Assignment) (n : Nat) (rest : List Lexeme) (enough : as.length < fuel) :
    Edit.pairs fuel (listed (fun _ => 1) lexemes as n ++ .symbol ")" :: rest) = some (pairs as n, rest) := by
  obtain ⟨k, rfl⟩ := Nat.exists_eq_add_of_le' (show 1 ≤ fuel by omega)
  induction as generalizing n k with
  | nil => rfl
  | cons a as ih =>
    obtain ⟨j, rfl⟩ : ∃ j, k = j + 1 := Nat.exists_eq_add_of_le' (by simp at enough; omega)
    have later := ih (n + 1) j (by simp at enough ⊢; omega)
    generalize after : listed (fun _ => 1) lexemes as (n + 1) ++ .symbol ")" :: rest = ms at later
    have stops : Stops ms := by
      rw [← after]
      cases as <;> exact stops_symbol rfl (by decide)
    obtain ⟨ls, eq, written⟩ := a.operand_lexemes n stops
    have literal : Grammar.expression (.string a.path.jsonPath :: .symbol "," :: (ls ++ ms))
        = some (.value (.text a.path.jsonPath), .symbol "," :: (ls ++ ms)) := expression_single (fun _ => rfl) rfl
    have comma (more : List Lexeme) : takeSymbol "," (.symbol "," :: more) = some more := rfl
    have lexemes : listed (fun _ => 1) lexemes (a :: as) n ++ .symbol ")" :: rest
        = .symbol "," :: .string a.path.jsonPath :: .symbol "," :: (ls ++ ms) := by
      rw [← after, listed, eq]
      simp
    rw [lexemes, Edit.pairs]
    · simp only [comma, literal, written, later, Option.bind_eq_bind, Option.bind_some]
      rfl
    · exact fun more eq => absurd (Lexeme.symbol.inj (List.cons.inj eq).1) (by decide)

end Assignment

namespace Changes

variable {c : Changes}

/-- The body without the removed paths, as a document. -/
def removal (c : Changes) : Edit :=
  (c.unset.map fun path => Expr.value (.text path.jsonPath)).foldl Edit.remove (.source (.name .none bodyColumn false))

/-- The changed body as a document, its values numbered on from `n`. -/
def document (c : Changes) (n : Nat) : Edit := (Assignment.pairs c.assignments n).foldl Edit.setPair c.removal

theorem length_le_listed {α : Type} (count : α → Nat) (ls : α → Nat → List Lexeme) (as : List α) (n : Nat) :
    as.length ≤ (listed count ls as n).length := by
  induction as generalizing n with
  | nil => exact Nat.le_refl 0
  | cons a as ih =>
    have later := ih (n + count a)
    rw [listed, List.length_cons, List.length_cons, List.length_append]
    omega

theorem length_pairs (as : List Assignment) (n : Nat) : (Assignment.pairs as n).length = as.length := by
  induction as generalizing n with
  | nil => rfl
  | cons a as ih => exact congrArg (· + 1) (ih (n + 1))

theorem read_removalLexemes (c : Changes) (stops : Stops rest) (k : Nat) :
    Edit.read (k + 2) (c.removalLexemes ++ rest) = if limits.arguments < 1 + c.unset.length then .none else some (c.removal, rest) := by
  unfold removalLexemes
  split
  · rename_i none_
    have few : ¬ limits.arguments < 1 + c.unset.length := by
      rw [List.isEmpty_iff.1 none_]
      decide
    rw [if_neg few, removal, List.isEmpty_iff.1 none_]
    exact Edit.read_source stops
  · have word : foldCase "json_remove" = "json_remove" := by decide
    have enough : c.unset.length < (listed (fun _ => 0) (fun path _ => [.string path.jsonPath]) c.unset 0 ++ .symbol ")" :: rest).length := by
      have long := length_le_listed (fun _ => 0) (fun (path : FieldPath) _ => [Lexeme.string path.jsonPath]) c.unset 0
      rw [List.length_append, List.length_cons]
      omega
    have paths := Edit.paths_listed c.unset 0 rest enough
    have apart : Stops (listed (fun _ => 0) (fun path _ => [.string path.jsonPath]) c.unset 0 ++ .symbol ")" :: rest) := by
      cases c.unset <;> exact stops_symbol rfl (by decide)
    simp only [List.cons_append, List.append_assoc, List.nil_append]
    rw [Edit.read, if_pos word, Edit.read_source apart]
    simp only [Option.bind_eq_bind, Option.bind_some, paths, List.length_map]
    rfl

/-- What the engine reads as the changed body, if no function has too many arguments. -/
theorem read_lexemes (c : Changes) (n : Nat) (stops : Stops rest) (k : Nat) :
    Edit.read (k + 3) (c.lexemes n ++ rest)
      = if limits.arguments < max (1 + 2 * c.assignments.length) (1 + c.unset.length) then .none else some (c.document n, rest) := by
  unfold lexemes
  split
  · rename_i none_
    have fewer : max (1 + 2 * c.assignments.length) (1 + c.unset.length) = 1 + c.unset.length := by
      rw [List.isEmpty_iff.1 none_]
      exact Nat.max_eq_right (by simp)
    rw [fewer, document, List.isEmpty_iff.1 none_]
    exact c.read_removalLexemes stops (k + 1)
  · have word : foldCase "json_set" = "json_set" ∧ foldCase "json_set" ≠ "json_remove" := by decide
    have enough : c.assignments.length < (listed (fun _ => 1) Assignment.lexemes c.assignments n ++ .symbol ")" :: rest).length := by
      have long := length_le_listed (fun _ => 1) Assignment.lexemes c.assignments n
      rw [List.length_append, List.length_cons]
      omega
    have pairs := Assignment.pairs_listed c.assignments n rest enough
    have apart : Stops (listed (fun _ => 1) Assignment.lexemes c.assignments n ++ .symbol ")" :: rest) := by
      cases c.assignments <;> exact stops_symbol rfl (by decide)
    simp only [List.cons_append, List.append_assoc, List.nil_append]
    rw [Edit.read, if_neg word.2, if_pos word.1, c.read_removalLexemes apart k]
    by_cases many : limits.arguments < 1 + c.unset.length
    · rw [if_pos many, if_pos (Nat.lt_of_lt_of_le many (Nat.le_max_right _ _))]
      rfl
    · rw [if_neg many]
      simp only [Option.bind_eq_bind, Option.bind_some, pairs, length_pairs, document]
      by_cases many' : limits.arguments < 1 + 2 * c.assignments.length
      · rw [if_pos many', if_pos (Nat.lt_of_lt_of_le many' (Nat.le_max_left _ _))]
      · rw [if_neg many', if_neg (by omega)]
        rfl

end Changes

/-! ## Documents -/

namespace Sql.Edit

/-- The scope of the table knows the names of the document, and for every row it is this tree, if it is one. -/
def Makes (t : Table) (params : List Value) (d : Edit) (tree : Row → Option Tree) : Prop :=
  ∃ e, d.resolve t.scope = some e ∧ ∀ row : Row, e.tree? row.look params = tree row

variable {d : Edit} {f : Row → Option Tree}

theorem keys?_jsonPath (path : FieldPath) : keys? (.text path.jsonPath) = some path.segments := by
  have members (f : PathStep → Option String) (named : ∀ name, f (.member name) = some name) (names : List String) :
      (names.map PathStep.member).mapM f = some names := by
    induction names with
    | nil => rfl
    | cons name names ih =>
      rw [List.map_cons, List.mapM_cons, ih, named]
      rfl
  unfold keys? Value.text?
  simp only [Option.bind_eq_bind, Option.bind_some, path.parse_jsonPath]
  exact members _ (fun _ => rfl) path.segments

theorem makes_source : (Edit.source (.name none bodyColumn false)).Makes t params fun row => some row.data.tree := by
  refine ⟨.source (.column ⟨.current, .data⟩), rfl, fun row => ?_⟩
  exact row.data.reads

theorem Makes.remove (h : d.Makes t params f) (path : FieldPath) :
    (d.remove (.value (.text path.jsonPath))).Makes t params fun row => (f row).map fun tree => tree.remove path.segments := by
  obtain ⟨e, resolved, trees⟩ := h
  refine ⟨.remove e (.value (.text path.jsonPath)), by simp [resolve, Expr.resolve, resolved], fun row => ?_⟩
  show _ = (f row).map _
  rw [tree?, trees row]
  cases f row with
  | none => rfl
  | some tree =>
    simp only [Option.bind_eq_bind, Option.bind_some, Expr.eval, keys?_jsonPath]
    rfl

end Sql.Edit

namespace Assignment

/-- What is written into a body, if the engine reads it. -/
def tree? (body : Tree) : Assignment → Option Tree
  | document _ v => Tree.read? v.text
  | sum path delta => some ((sum path delta).value body)

/-- Writes into what there is made of a body. -/
def write? (body : Tree) (made : Option Tree) (a : Assignment) : Option Tree :=
  made.bind fun tree => (a.tree? body).map fun v => Tree.set v a.path.segments tree

theorem makes_pair {d : Edit} {f : Row → Option Tree} (h : d.Makes t params f) (a : Assignment)
    (placed : Value.Placed params n [a.param]) :
    (d.setPair (a.pair n)).Makes t params fun row => a.write? row.data.tree (f row) := by
  obtain ⟨e, resolved, trees⟩ := h
  cases a with
  | document path v =>
    have value : params[n]? = some (.text v.text) := placed.head
    refine ⟨.put e (.value (.text path.jsonPath)) (.param n), ?_, fun row => ?_⟩
    · show (Edit.put d (.value (.text path.jsonPath)) (.param n)).resolve t.scope = _
      simp [Edit.resolve, Expr.resolve, resolved]
    · show _ = (f row).bind _
      rw [Edit.tree?, trees row]
      cases f row with
      | none => rfl
      | some tree =>
        simp only [Option.bind_eq_bind, Option.bind_some, Expr.eval, value, Value.text?, Edit.keys?_jsonPath, Assignment.tree?]
        cases Tree.read? v.text <;> rfl
  | sum path delta =>
    have value : params[n]? = some (.ofNumber delta) := placed.head
    obtain ⟨x, reads⟩ := Operand.exists_reads (v := .extract path) (t := t) trivial
    refine ⟨.write e (.value (.text path.jsonPath)) (.binary .add (.binary .ifNull x (.value (.integer 0))) (.param n)), ?_, fun row => ?_⟩
    · show (Edit.write d (.value (.text path.jsonPath))
        (.binary .add (.binary .ifNull (Operand.extract path).expr (.value (.integer 0))) (.param n))).resolve t.scope = _
      have constant : Expr.truthConstant? t.scope (.value (.integer 0)) = none ∧ Expr.truthConstant? t.scope (.param n) = none := ⟨rfl, rfl⟩
      simp [Edit.resolve, Expr.resolve, resolved, reads.known]
    · have current : x.eval row.look params = some (((row.data.tree.lookup? path.segments).map Tree.value).getD .null) :=
        reads.value row params
      show _ = (f row).bind _
      rw [Edit.tree?, trees row]
      cases f row with
      | none => rfl
      | some tree =>
        simp only [Option.bind_eq_bind, Option.bind_some, Expr.eval, current, value, Edit.keys?_jsonPath, Assignment.tree?,
          Assignment.value, Expr.settled?, Expr.combine]
        cases (((row.data.tree.lookup? path.segments).map Tree.value).getD .null).isNull <;> rfl

/-- Assignments write one after the other. -/
theorem makes_pairs {d : Edit} {f : Row → Option Tree} (h : d.Makes t params f) (as : List Assignment)
    (placed : Value.Placed params n (as.map param)) :
    ((pairs as n).foldl Edit.setPair d).Makes t params fun row => as.foldl (write? row.data.tree) (f row) := by
  induction as generalizing d f n with
  | nil => exact h
  | cons a as ih =>
    have here : Value.Placed params n ([a.param] ++ as.map param) := placed
    exact ih (makes_pair h a here.left) placed.tail

end Assignment

namespace Changes

variable {c : Changes}

theorem makes_removal (c : Changes) :
    c.removal.Makes t params fun row => some (c.unset.foldl (fun tree path => tree.remove path.segments) row.data.tree) := by
  have removed (paths : List FieldPath) {d : Edit} {f : Row → Tree} (h : d.Makes t params fun row => some (f row)) :
      ((paths.map fun path => Expr.value (.text path.jsonPath)).foldl Edit.remove d).Makes t params
        fun row => some (paths.foldl (fun tree path => tree.remove path.segments) (f row)) := by
    induction paths generalizing d f with
    | nil => exact h
    | cons path paths ih => exact ih (h.remove path)
  exact removed c.unset Edit.makes_source

/-- The engine takes the changes: no function has too many arguments, and no value to set stands too deep. -/
def isWithinLimits (c : Changes) : Bool :=
  max (1 + 2 * c.assignments.length) (1 + c.unset.length) ≤ limits.arguments && c.set.all fun e => e.2.tree.depth ≤ limits.documentDepth

/-- The value that is written does not stand too deep. -/
def isShallow : Assignment → Bool
  | .document _ v => v.tree.depth ≤ limits.documentDepth
  | .sum .. => true

theorem all_isShallow (c : Changes) : c.assignments.all isShallow = c.set.all fun e => e.2.tree.depth ≤ limits.documentDepth := by
  rw [assignments, List.all_append, List.all_map, List.all_map]
  have sums : (c.inc.all (isShallow ∘ fun e => .sum e.1 e.2)) = true := List.all_eq_true.2 fun _ _ => rfl
  rw [sums, Bool.and_true]
  rfl

theorem tree?_eq {a : Assignment} (finite : ∀ path v, a = .document path v → v.isFinite = true) (body : Tree) :
    a.tree? body = if isShallow a then some (a.value body) else .none := by
  cases a with
  | sum path delta => rfl
  | document path v =>
    rw [Assignment.tree?, Json.read?_text (finite path v rfl), isShallow]
    simp only [decide_eq_true_eq]
    rfl

/-- Where one of the values stands too deep there is no document. -/
theorem foldl_tree? {as : List Assignment} (finite : ∀ a ∈ as, ∀ path v, a = .document path v → v.isFinite = true) (body tree : Tree) :
    as.foldl (Assignment.write? body) (some tree)
      = if as.all isShallow then some (as.foldl (fun tree a => Tree.set (a.value body) a.path.segments tree) tree) else .none := by
  induction as generalizing tree with
  | nil => rfl
  | cons a as ih =>
    obtain ⟨here, later⟩ := List.forall_mem_cons.1 finite
    rw [List.foldl_cons, Assignment.write?, Option.bind_some, tree?_eq here, List.all_cons]
    cases isShallow a with
    | true => exact ih later _
    | false =>
      have nothing : ∀ as : List Assignment, as.foldl (Assignment.write? body) .none = .none := fun as => by
        induction as with
        | nil => rfl
        | cons b bs ih => exact ih
      exact nothing as

theorem length_pos_lexemes (c : Changes) (n : Nat) (some_ : c.isEmpty = false) : 3 ≤ (c.lexemes n).length := by
  unfold lexemes
  split
  · rename_i none_
    have unset : c.unset.isEmpty = false := by
      cases h : c.unset.isEmpty with
      | false => rfl
      | true => simp_all [isEmpty, assignments]
    rw [removalLexemes, if_neg (by simp [unset])]
    simp
  · simp only [List.length_cons, List.length_append]
    omega

/-- The document of changes that change something is no text as it stands. -/
theorem isMade_document (c : Changes) (n : Nat) (some_ : c.isEmpty = false) (x : Expr) : c.document n ≠ .source x := by
  have fold {β : Type} (step : Edit → β → Edit) (makes : ∀ d b y, step d b ≠ .source y) (bs : List β) (d : Edit)
      (made : ∀ y, d ≠ .source y) : ∀ y, bs.foldl step d ≠ .source y := by
    induction bs generalizing d with
    | nil => exact made
    | cons b bs ih => exact ih _ (makes d b)
  have sets : ∀ (d : Edit) (p : Pair) y, d.setPair p ≠ .source y := fun d p y => by
    unfold Edit.setPair
    split <;> exact fun eq => by cases eq
  have removes : ∀ (d : Edit) (path y : Expr), d.remove path ≠ .source y := fun d path y eq => by cases eq
  cases unset : c.unset with
  | cons path paths =>
    have removal : ∀ y, c.removal ≠ .source y := by
      rw [removal, unset, List.map_cons, List.foldl_cons]
      exact fold Edit.remove removes _ _ (removes _ _)
    exact fold Edit.setPair sets _ _ removal x
  | nil =>
    cases written : c.assignments with
    | nil => simp_all [isEmpty, assignments]
    | cons a as =>
      rw [document, written]
      exact fold Edit.setPair sets _ _ (sets _ _) x

theorem eval_of_resolve {d e : Edit} (resolved : d.resolve t.scope = some e) (made : ∀ x, d ≠ .source x) (row : Row) :
    e.eval row.look params = (e.tree? row.look params).map fun tree => .text tree.text := by
  cases d with
  | source x => exact absurd rfl (made x)
  | remove d path =>
    simp only [Edit.resolve, Option.bind_eq_bind, Option.bind_eq_some_iff, Option.pure_def, Option.some.injEq] at resolved
    obtain ⟨_, -, _, -, rfl⟩ := resolved
    rfl
  | put d path x | write d path x =>
    simp only [Edit.resolve, Option.bind_eq_bind, Option.bind_eq_some_iff, Option.pure_def, Option.some.injEq] at resolved
    obtain ⟨_, -, _, -, _, -, rfl⟩ := resolved
    rfl

/-- The document of the changes is for a row the text of its changed body, if no value to set stands too deep. -/
theorem eval_document (c : Changes) (some_ : c.isEmpty = false) (finite : ∀ e ∈ c.set, e.2.isFinite = true)
    (placed : Value.Placed params n c.expressionParams) : ∃ e, (c.document n).resolve t.scope = some e
      ∧ ∀ row : Row, e.eval row.look params = if c.set.all (fun e => e.2.tree.depth ≤ limits.documentDepth)
        then some (.text (c.edit row.data.tree).text) else .none := by
  obtain ⟨e, resolved, trees⟩ := Assignment.makes_pairs (t := t) c.makes_removal c.assignments placed
  refine ⟨e, resolved, fun row => ?_⟩
  have values : ∀ a ∈ c.assignments, ∀ path v, a = .document path v → v.isFinite = true := by
    rintro _ mem path v rfl
    obtain ⟨entry, there, eq⟩ : ∃ entry ∈ c.set, Assignment.document entry.1 entry.2 = .document path v := by
      simpa [assignments] using mem
    cases eq
    exact finite entry there
  rw [eval_of_resolve resolved (c.isMade_document n some_), trees row]
  show (c.assignments.foldl (Assignment.write? row.data.tree) (some _)).map _ = _
  rw [foldl_tree? values, all_isShallow]
  split <;> rfl

/-- The engine that is given the text of changes and their values makes of a row the text of its changed body, if they are within its
limits, and otherwise nothing. -/
theorem documentOf?_text (c : Changes) (some_ : c.isEmpty = false) (finite : ∀ e ∈ c.set, e.2.isFinite = true) (t : Table) (row : Row) :
    row.documentOf? t c.expressionParams c.expressionText
      = if c.isWithinLimits then some (.text (c.edit row.data.tree).text) else .none := by
  have whole : whole? (fun ls => Edit.read ls.length ls) c.expressionText c.expressionParams.length
      = if max (1 + 2 * c.assignments.length) (1 + c.unset.length) ≤ limits.arguments then some (c.document 0) else .none := by
    by_cases room : c.expressionParams.length ≤ limits.values
    · obtain ⟨k, fuel⟩ := Nat.exists_eq_add_of_le' (c.length_pos_lexemes 0 some_)
      have read := c.read_lexemes 0 stops_nil k
      rw [List.append_nil] at read
      rw [whole?_of_spells (c.spells_expressionText gap_nil) room]
      simp only [fuel, read]
      by_cases few : max (1 + 2 * c.assignments.length) (1 + c.unset.length) ≤ limits.arguments
      · rw [if_pos few, if_neg (Nat.not_lt.2 few)]
      · rw [if_neg few, if_pos (Nat.not_le.1 few)]
    · have many : ¬ max (1 + 2 * c.assignments.length) (1 + c.unset.length) ≤ limits.arguments := fun few => by
        rw [expressionParams, List.length_map] at room
        have values : limits.values = 32766 ∧ limits.arguments = 1000 := ⟨rfl, rfl⟩
        omega
      rw [if_neg many, whole?_of_excess (Nat.not_le.1 room)]
  obtain ⟨e, resolved, values⟩ := c.eval_document (t := t) some_ finite (.whole c.expressionParams)
  rw [Row.documentOf?, Edit.read?, whole]
  by_cases few : max (1 + 2 * c.assignments.length) (1 + c.unset.length) ≤ limits.arguments
  · rw [if_pos few, isWithinLimits, decide_eq_true few, Bool.true_and, ← values row]
    show ((c.document 0).resolve t.scope).bind _ = _
    rw [resolved]
    rfl
  · rw [if_neg few, isWithinLimits, decide_eq_false few, Bool.false_and]
    rfl

end Changes

end Dossier
