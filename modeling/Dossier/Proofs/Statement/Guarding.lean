import Dossier.Proofs.Statement.Executing
import Dossier.Proofs.Update.Violation

/-!
# Searches for violated guards by their text

What the engine gives that reads the text of a search for a violated guard (`Statement.isExecuted_guard`): of the rows that
the filter chooses the number of the first guard that holds of one of them, the earliest such row deciding. The guards are
the arms of a `CASE`, each with its number.
-/

namespace Dossier

open Text Sql Raw Grammar Outcome

variable {t : Table} {params : List Value} {n : Nat} {p : Predicate} {db : Database} {name : CollectionName} {r : Resolver}
  {cardinality : Cardinality} {rest : List Char} {ls : List Lexeme} {guards : List Guard} {gs : List (Guard × Nat)}

/-! ## Spelling -/

namespace Listing

theorem spells_natText (k : Nat) (ends : Ends goesOn rest) : Spells rest (natText k) 0 fun _ => [.whole k] := by
  refine (Spells.of_constants [⟨.number, (natText k).toList⟩] (by simp) (by simp [isConstant_natText])
    ⟨formed_natText k, ends, trivial⟩).congr fun _ => ?_
  simp [constants, Token.lexeme?, numberLexeme?_natText]

theorem starts_natText (k : Nat) (rest : List Char) : Ends Value.isPadding ((natText k).toList ++ rest) := by
  obtain ⟨c, cs, text, -⟩ := formed_natText k
  have digit : c.isDigit = true := isDigit_of_mem_natText (k := k) (by
    rw [show (natText k).toList = c :: cs from text]
    exact List.mem_cons_self)
  rw [show (natText k).toList = c :: cs from text]
  refine ends_cons (Bool.eq_false_iff.2 fun padding => ?_)
  exact absurd (isBlank_of_isPadding padding) (by simp [not_isBlank_of_isNameChar (isNameChar_of_isDigit digit)])

end Listing

namespace Guard

/-- The lexemes of the arms for guards with their numbers, the values numbered on from `n`. -/
def armsLexemes : List (Guard × Nat) → (n : Nat) → List Lexeme
  | [], _ => []
  | (g, k) :: gs, n => .word "WHEN" :: (g.lexemes n ++ .word "THEN" :: .whole k :: armsLexemes gs (n + g.params.length))

/-- The arms as a choice, that of the first guard that is true. -/
def armsExpr : List (Guard × Nat) → (n : Nat) → Expr
  | [], _ => .value .null
  | (g, k) :: gs, n => .ternary .choose (g.expr n) (.value (wholeValue k)) (armsExpr gs (n + g.params.length))

theorem head?_boundText (path : FieldPath) (op : Value.Comparison) : (boundText path op).toList.head? = some '(' := by
  rw [boundText]
  simp only [String.append_assoc]
  exact head?_append (by decide) _

theorem head?_text (g : Guard) : g.text.toList.head? = some '(' ∨ g.text.toList.head? = some 'j' := by
  cases g with
  | notAContainer path ancestor => exact .inr (head?_append (head?_typeText ancestor) _)
  | notANumber path => exact .inr (head?_append (head?_typeText path) _)
  | tooGreat path bound => exact .inl (head?_boundText path .gt)
  | tooSmall path bound => exact .inl (head?_boundText path .lt)

/-- The text of the arm for a guard with its number. -/
def armText (g : Guard × Nat) : String := "WHEN " ++ g.1.text ++ " THEN " ++ Listing.natText g.2

theorem spells_armText (g : Guard × Nat) (gap : Gap rest) : Spells rest (armText g) g.1.params.length (armsLexemes [g]) := by
  have when_ : phrase "WHEN " = [.word "WHEN"] := phrase_eq (by decide)
  have then_ : phrase " THEN " = [.word "THEN"] := phrase_eq (by decide)
  have opens (cs : List Char) : Spells (g.1.text.toList ++ cs) "WHEN " 0 fun _ => phrase "WHEN " := by
    rcases g.1.head?_text with starts | starts
    · exact .before starts (by decide)
    · exact .before starts (by decide)
  have middle : Spells ((Listing.natText g.2).toList ++ rest) " THEN " 0 fun _ => phrase " THEN " :=
    .spaced (by decide) (by decide) (Listing.starts_natText g.2 rest)
  have between : Gap (" THEN ".toList ++ ((Listing.natText g.2).toList ++ rest)) := gap_of_blank (by decide) _
  have whole := (((opens _).append (g.1.spells_text between)).append middle).append
    (Listing.spells_natText g.2 (gap.ends rfl rfl rfl))
  rw [when_, then_] at whole
  refine (whole.congr fun n => ?_).count (by simp)
  simp [armsLexemes]

theorem head?_arms (some_ : gs ≠ []) : (joinWith " " (gs.map armText)).toList.head? = some 'W' := by
  obtain ⟨g, gs, rfl⟩ := List.exists_cons_of_ne_nil some_
  have arm : (armText g).toList.head? = some 'W' := head?_append (head?_append (head?_append (by decide) _) _) _
  cases gs with
  | nil => rwa [List.map_singleton, joinWith_singleton]
  | cons h gs =>
    rw [List.map_cons, List.map_cons, joinWith_cons_cons]
    exact head?_append (head?_append arm _) _

/-- The arms before a gap. -/
theorem spells_arms (some_ : gs ≠ []) (gap : Gap rest) : Spells rest (joinWith " " (gs.map armText))
    (gs.flatMap fun g => g.1.params).length (armsLexemes gs) := by
  induction gs with
  | nil => exact absurd rfl some_
  | cons g gs ih =>
    cases gs with
    | nil =>
      rw [List.map_singleton, joinWith_singleton]
      exact (spells_armText g gap).count (by simp)
    | cons h gs =>
      have blank : Spells ((joinWith " " ((h :: gs).map armText)).toList ++ rest) " " 0 fun _ => phrase " " :=
        .before (head?_arms (List.cons_ne_nil h gs)) (by decide)
      have nothing : phrase " " = [] := phrase_eq (by decide)
      have between : Gap (" ".toList ++ ((joinWith " " ((h :: gs).map armText)).toList ++ rest)) := gap_of_blank (by decide) _
      have whole := ((spells_armText g between).append blank).append (ih (List.cons_ne_nil h gs))
      rw [nothing] at whole
      rw [List.map_cons, List.map_cons, joinWith_cons_cons]
      refine (whole.congr fun n => ?_).count (by simp)
      simp [armsLexemes]

/-! ## Reading -/

/-- The grammar reads the arms up to the end of their choice. -/
theorem arms_lexemes (some_ : gs ≠ []) (n k : Nat) :
    Grammar.arms (k + 31 + gs.length) .none (armsLexemes gs n ++ .word "END" :: ls) = some (armsExpr gs n, ls) := by
  induction gs generalizing n with
  | nil => exact absurd rfl some_
  | cons g gs ih =>
    obtain ⟨g, i⟩ := g
    have fuel : k + 31 + ((g, i) :: gs).length = (k + 31 + gs.length) + 1 := rfl
    generalize after : armsLexemes gs (n + g.params.length) ++ .word "END" :: ls = ms
    have test : Grammar.expr (k + 31 + gs.length) 0 (g.lexemes n ++ .word "THEN" :: .whole i :: ms)
        = some (g.expr n, .word "THEN" :: .whole i :: ms) := by
      rw [show k + 31 + gs.length = (k + gs.length + 1) + 30 by omega]
      exact g.expr_lexemes n rfl _
    have stops : connective? ms = none := by
      rw [← after]
      cases gs <;> rfl
    have number : Grammar.expr (k + 31 + gs.length) 0 (.whole i :: ms) = some (.value (wholeValue i), ms) := by
      rw [show k + 31 + gs.length = (k + 29 + gs.length) + 2 by omega]
      exact operators_of_none stops
    have lexemes : armsLexemes ((g, i) :: gs) n ++ .word "END" :: ls = .word "WHEN" :: (g.lexemes n ++ .word "THEN" :: .whole i :: ms) := by
      rw [← after, armsLexemes]
      simp
    have when_ (ls : List Lexeme) : takeWord "when" (.word "WHEN" :: ls) = some ls := rfl
    have then_ (ls : List Lexeme) : takeWord "then" (.word "THEN" :: ls) = some ls := rfl
    rw [fuel, lexemes, Grammar.arms, when_]
    simp only [Option.bind_eq_bind, Option.bind_some, test, then_, number]
    cases gs with
    | nil =>
      rw [← after]
      rfl
    | cons h gs =>
      have more : atWord "when" ms = true := by
        rw [← after]
        rfl
      have later := ih (List.cons_ne_nil h gs) (n + g.params.length)
      rw [after] at later
      rw [if_pos more, later]
      rfl

/-- The choice is read as an expression. -/
theorem expression_arms (some_ : gs ≠ []) (n : Nat) (stops : connective? ls = none) :
    expression (.word "CASE" :: (armsLexemes gs n ++ .word "END" :: ls)) = some (armsExpr gs n, ls) := by
  have long : 31 + gs.length ≤ 4 * (armsLexemes gs n).length := by
    clear stops
    induction gs generalizing n with
    | nil => exact absurd rfl some_
    | cons g gs ih =>
      obtain ⟨g, i⟩ := g
      have one : 8 ≤ (g.lexemes n).length := by cases g <;> simp [lexemes, boundLexemes, typeLexemes, Operand.lexemes]
      have more : gs.length ≤ 4 * (armsLexemes gs (n + g.params.length)).length := by
        cases gs with
        | nil => exact Nat.zero_le _
        | cons h gs => exact Nat.le_of_add_left_le (ih (List.cons_ne_nil h gs) (n + g.params.length))
      simp only [armsLexemes, List.length_cons, List.length_append]
      omega
  obtain ⟨k, fuel⟩ : ∃ k, 4 * (Lexeme.word "CASE" :: (armsLexemes gs n ++ .word "END" :: ls)).length + 4 = k + 31 + gs.length + 2 := by
    refine ⟨4 * (Lexeme.word "CASE" :: (armsLexemes gs n ++ .word "END" :: ls)).length + 4 - (31 + gs.length + 2), ?_⟩
    simp only [List.length_cons, List.length_append]
    omega
  have first : atWord "when" (armsLexemes gs n ++ .word "END" :: ls) = true := by
    obtain ⟨g, gs, rfl⟩ := List.exists_cons_of_ne_nil some_
    rfl
  have choice : operand (k + 31 + gs.length + 1) (.word "CASE" :: (armsLexemes gs n ++ .word "END" :: ls)) = some (armsExpr gs n, ls) := by
    rw [Grammar.operand.eq_def]
    show (if atWord "when" _ then _ else _) = _
    rw [if_pos first]
    exact arms_lexemes some_ n k
  rw [expression, fuel, Grammar.expr, choice]
  exact operators_of_none stops

/-! ## Truth -/

/-- The number of the first guard that holds of a body, or null. -/
def codeIn (gs : List (Guard × Nat)) (body : Tree) : Value :=
  ((gs.find? fun g => (g.1.holds body).isTrue).map fun g => Value.integer g.2).getD .null

/-- The choice is for every row the number of the first guard that holds of its body. -/
theorem exists_code (gs : List (Guard × Nat)) (few : ∀ g ∈ gs, g.2 ≤ Listing.pageLimit)
    (placed : Value.Placed params n (gs.flatMap fun g => g.1.params)) : ∃ e, (armsExpr gs n).resolve t.scope = some e
      ∧ ∀ row : Row, e.eval row.look params = some (codeIn gs row.data.tree) := by
  induction gs generalizing n with
  | nil => exact ⟨.value .null, rfl, fun row => rfl⟩
  | cons g gs ih =>
    obtain ⟨g, i⟩ := g
    obtain ⟨here, later⟩ := List.forall_mem_cons.1 few
    obtain ⟨test, known, holds⟩ := g.decides_expr (t := t) placed.left
    obtain ⟨other, resolved, values⟩ := ih later placed.right
    have number : wholeValue i = .integer i := if_pos (by unfold Listing.pageLimit at here; omega)
    refine ⟨.ternary .choose test (.value (.integer i)) other, ?_, fun row => ?_⟩
    · rw [armsExpr, number]
      simp [Expr.resolve, known, resolved]
    · obtain ⟨v, value, truth⟩ := Option.map_eq_some_iff.1 (holds row)
      have value : test.eval row.look params = some v := value
      rw [Expr.eval, value, Option.bind_eq_bind, Option.bind_some, truth, codeIn, List.find?_cons]
      cases (g.holds row.data.tree).isTrue with
      | true => rfl
      | false => exact values row

/-- Numbered in their order, the guards give the number of the first one that holds. -/
theorem codeIn_zipIdx (guards : List Guard) (body : Tree) :
    codeIn guards.zipIdx body = ((Table.guardCode? guards body).map fun (k : Nat) => Value.integer k).getD .null := by
  have numbered (start : Nat) : ((guards.zipIdx start).find? fun g => (g.1.holds body).isTrue).map Prod.snd
      = (guards.findIdx? fun g => (g.holds body).isTrue).map (· + start) := by
    induction guards generalizing start with
    | nil => rfl
    | cons g guards ih =>
      rw [List.zipIdx_cons, List.find?_cons, List.findIdx?_cons]
      cases (g.holds body).isTrue with
      | true => simp
      | false =>
        simp only [ih (start + 1), Option.map_map, Bool.false_eq_true, if_false]
        exact congrArg (Option.map · _) (funext fun k => by simp; omega)
  have first := numbered 0
  simp only [Nat.add_zero, Option.map_id'] at first
  rw [Table.guardCode?, ← first, codeIn, Option.map_map]
  rfl

theorem flatMap_zipIdx (guards : List Guard) : guards.zipIdx.flatMap (fun g => g.1.params) = guards.flatMap Guard.params := by
  rw [← List.flatMap_map Prod.fst Guard.params, List.zipIdx_map_fst]

/-- The first number that is not null is that of the earliest row of which a guard holds. -/
theorem find?_codes (guards : List Guard) (rows : List Row) :
    (rows.map fun row => codeIn guards.zipIdx row.data.tree).find? (fun v => !v.isNull)
      = (rows.findSome? fun row => Table.guardCode? guards row.data.tree).map fun (k : Nat) => Value.integer k := by
  induction rows with
  | nil => rfl
  | cons row rows ih =>
    rw [List.map_cons, List.find?_cons, List.findSome?_cons, codeIn_zipIdx, ih]
    cases Table.guardCode? guards row.data.tree <;> rfl

end Guard

/-! ## Whole searches -/

namespace Statement

open Guard (armsLexemes armsExpr)

/-- What stands after the rows of a search. -/
def searchBack : String := ") WHERE code IS NOT NULL ORDER BY position ASC LIMIT 1), -1)"

theorem gap_searchBack (rest : List Char) : Gap (searchBack.toList ++ rest) :=
  gap_of_head? (by decide) (.inr (.inr rfl)) rest

theorem text_guard (guards : List Guard) : (guard guards p cardinality).text name r
    = "SELECT COALESCE((SELECT code FROM (SELECT CASE " ++ guardArms guards
      ++ (" END AS code, rowid AS position FROM " ++ name.quoted ++ (targetText name p cardinality ++ searchBack)) := by
  have same : (guard guards p cardinality).text name r = "SELECT COALESCE((SELECT code FROM (SELECT CASE " ++ guardArms guards
    ++ " END AS code, rowid AS position FROM " ++ name.quoted ++ targetText name p cardinality ++ searchBack := rfl
  rw [same]
  simp only [String.append_assoc]

theorem spells_guard (plain : p.Plain) (some_ : guards ≠ []) : Spells [] ((guard guards p cardinality).text name r)
    (guard guards p cardinality).params.length fun n => .word "SELECT" :: (Query.codeFront ++ .word "CASE"
      :: (armsLexemes guards.zipIdx n ++ .word "END" :: (Query.codeMiddle ++ .quoted name.text true
        :: (targetLexemes name p cardinality (n + (guards.flatMap Guard.params).length) ++ Query.codeBack)))) := by
  have numbered : guards.zipIdx ≠ [] := by simpa using some_
  have front : phrase "SELECT COALESCE((SELECT code FROM (SELECT CASE " = .word "SELECT" :: (Query.codeFront ++ [.word "CASE"]) :=
    phrase_eq (by decide)
  have middle : phrase " END AS code, rowid AS position FROM " = .word "END" :: Query.codeMiddle := phrase_eq (by decide)
  have back : phrase searchBack = Query.codeBack := phrase_eq (by decide)
  have rows : Gap ((targetText name p cardinality ++ searchBack).toList ++ []) := by
    rw [String.toList_append, List.append_assoc]
    exact gap_targetText p (gap_searchBack []) cardinality
  have table := spells_from name " END AS code, rowid AS position FROM " (by decide) rows
    ((spells_targetText name plain (gap_searchBack []) cardinality).append (.last (by decide)))
  have ended : Gap ((" END AS code, rowid AS position FROM " ++ name.quoted ++ (targetText name p cardinality ++ searchBack)).toList ++ []) :=
    gap_of_blank (head?_append (head?_append (by decide) _) _) []
  have arms := Guard.spells_arms numbered ended
  have starts : (guardArms guards).toList.head? = some 'W' := Guard.head?_arms numbered
  have whole := ((Spells.before (a := "SELECT COALESCE((SELECT code FROM (SELECT CASE ") starts (by decide)).append arms).append table
  rw [← text_guard, front, middle, back, Guard.flatMap_zipIdx] at whole
  refine (whole.congr fun n => ?_).count (by simp [params])
  simp

/-- What is searched for. -/
theorem read?_guard (plain : p.Plain) (fits : (guard guards p cardinality).Fits) (some_ : guards ≠ []) :
    Query.read? ((guard guards p cardinality).text name r) (guard guards p cardinality).params.length
      = some (.firstCode (armsExpr guards.zipIdx 0) (target name.text p cardinality (guards.flatMap Guard.params).length)) := by
  have closes : Listing.Closes Query.codeBack := .inr ⟨_, rfl⟩
  have rows := read_target name p cardinality (guards.flatMap Guard.params).length closes
  refine read?_of_spells (spells_guard plain some_) (isWithinLimits_iff.1 fits.1).2.2.2 ?_
  rw [Nat.zero_add]
  generalize (.quoted name.text true :: (targetLexemes name p cardinality (guards.flatMap Guard.params).length ++ Query.codeBack)
    : List Lexeme) = ls at rows ⊢
  have numbered : guards.zipIdx ≠ [] := by simpa using some_
  have stops : connective? (Query.codeMiddle ++ ls) = none := rfl
  have code := Guard.expression_arms numbered 0 stops
  generalize (.word "CASE" :: (armsLexemes guards.zipIdx 0 ++ .word "END" :: (Query.codeMiddle ++ ls)) : List Lexeme) = ms at code ⊢
  have search : Query.read (.word "SELECT" :: (Query.codeFront ++ ms)) = (expression ms).bind fun x => (do
      let t ← Target.read (← Query.takeAll Query.codeMiddle x.2)
      return (.firstCode x.1 t.1, ← Query.takeAll Query.codeBack t.2)) := rfl
  have table : Query.takeAll Query.codeMiddle (Query.codeMiddle ++ ls) = some ls := rfl
  have end_ : Query.takeAll Query.codeBack Query.codeBack = some [] := rfl
  rw [search, code]
  simp only [Option.bind_some, table, Option.bind_eq_bind, rows, end_]
  rfl

/-- The engine that is given the text of a search for a violated guard finds what the search is answered with. -/
theorem isExecuted_guard (found : db.table? name.text = some t) (serves : Serves t p) (fits : (guard guards p cardinality).Fits)
    (some_ : guards ≠ []) (few : guards.length ≤ Listing.pageLimit) : (guard guards p cardinality).IsExecuted db name r := by
  have there := Database.tableOf_eq_ok.2 found
  have numbers : ∀ g ∈ guards.zipIdx, g.2 ≤ Listing.pageLimit := fun g mem => by
    have := List.snd_lt_of_mem_zipIdx mem
    omega
  have placed : Value.Placed (guard guards p cardinality).params 0 (guards.flatMap Guard.params ++ p.params) := .whole _
  have chosen : Value.Placed (guard guards p cardinality).params (guards.flatMap Guard.params).length p.params := by
    simpa using placed.right
  obtain ⟨e, resolved, values⟩ := Guard.exists_code (t := t) (n := 0) guards.zipIdx numbers (by
    rw [Guard.flatMap_zipIdx]
    exact placed.left)
  have rows := run_target found serves.number serves.numbered serves.known fits.2 chosen cardinality
  have table : (target name.text p cardinality (guards.flatMap Guard.params).length).table = name.text := by cases cardinality <;> rfl
  have code : t.resolved (armsExpr guards.zipIdx 0) = .ok e := by
    rw [Table.resolved, resolved]
    rfl
  have codes : (t.targets p cardinality).mapM (fun row => row.valueOf (guard guards p cardinality).params e)
      = .ok ((t.targets p cardinality).map fun row => Guard.codeIn guards.zipIdx row.data.tree) := by
    refine Outcome.mapM_ok fun row _ => ?_
    rw [Row.valueOf, values row]
    rfl
  refine isExecuted_of_read fits (read?_guard serves.plain fits some_) ?_
  rw [Database.perform, Database.answer, table, there, ok_bind, code, ok_bind, rows, ok_bind, codes, ok_bind, Guard.find?_codes, ok_bind,
    Table.guardCode]
  cases (t.targets p cardinality).findSome? fun row => Table.guardCode? guards row.data.tree <;> rfl

end Statement

end Dossier
