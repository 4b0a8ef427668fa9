import Dossier.Proofs.Statement.Executing
import Dossier.Proofs.Update.Expression

/-!
# Changes of rows by their text

What the engine does that reads the text of a change (`Statement.isExecuted_change`): of the rows that the filter chooses it leaves
alone those whose text the expression does not change, and gives the others the value of the expression and the time.
-/

namespace Dossier

open Text Sql Raw Grammar Outcome

variable {t : Table} {params : List Value} {n : Nat} {p : Predicate} {c : Changes} {rows : List Row} {db : Database} {name : CollectionName}
  {r : Resolver} {cardinality : Cardinality} {now : Int}

/-! ## Spelling -/

namespace Statement

/-- The lexemes of the choice of the rows that a change alters, the values numbered on from `n`. -/
def changedLexemes (name : CollectionName) (c : Changes) (p : Predicate) (cardinality : Cardinality) (n : Nat) : List Lexeme :=
  match cardinality, p with
  | .many, [] => [.word "WHERE", .word "data", .word "IS", .word "NOT"] ++ c.lexemes n
  | .many, u :: ts => [.word "WHERE", .symbol "("] ++ (Predicate.lexemes n (u :: ts)
      ++ ([.symbol ")", .word "AND", .word "data", .word "IS", .word "NOT"] ++ c.lexemes (n + (Predicate.params (u :: ts)).length)))
  | .one, p => targetLexemes name p .one n ++ ([.word "AND", .word "data", .word "IS", .word "NOT"] ++ c.lexemes (n + p.params.length))

theorem head?_expressionText (c : Changes) :
    c.expressionText.toList.head? = some 'd' ∨ c.expressionText.toList.head? = some 'j' := by
  unfold Changes.expressionText
  split
  · exact c.head?_removalText
  · exact .inr (head?_append (head?_append (head?_append (head?_append (by decide) _) _) _) _)

/-- A phrase before the expression of a change. -/
theorem spells_expression (c : Changes) {a : String} (before_d : (isPhrase a && (phraseTokens a).getLast?.all fun t => !t.takesIn 'd') = true)
    (before_j : (isPhrase a && (phraseTokens a).getLast?.all fun t => !t.takesIn 'j') = true) {rest : List Char} (gap : Gap rest) :
    Spells rest (a ++ c.expressionText) c.expressionParams.length fun n => phrase a ++ c.lexemes n := by
  have front : Spells (c.expressionText.toList ++ rest) a 0 fun _ => phrase a := by
    rcases head?_expressionText c with starts | starts
    · exact .before starts before_d
    · exact .before starts before_j
  have whole := front.append (c.spells_expressionText gap)
  rw [Nat.zero_add] at whole
  exact whole

theorem changedText_all (name : CollectionName) (c : Changes) :
    changedText name c [] .many = " WHERE data IS NOT " ++ c.expressionText := by
  have changed : changedText name c [] .many = " WHERE " ++ (bodyColumn ++ " IS NOT " ++ c.expressionText) := rfl
  have words : " WHERE data IS NOT " = " WHERE " ++ (bodyColumn ++ " IS NOT ") := by decide
  rw [changed, words]
  simp only [String.append_assoc]

theorem changedText_many (name : CollectionName) (c : Changes) (u : Term) (ts : Predicate) :
    changedText name c (u :: ts) .many = " WHERE (" ++ Predicate.text (u :: ts) ++ (") AND data IS NOT " ++ c.expressionText) := by
  have changed : changedText name c (u :: ts) .many
      = " WHERE (" ++ Predicate.text (u :: ts) ++ ") AND " ++ (bodyColumn ++ " IS NOT " ++ c.expressionText) := rfl
  have words : ") AND data IS NOT " = ") AND " ++ (bodyColumn ++ " IS NOT ") := by decide
  rw [changed, words]
  simp only [String.append_assoc]

theorem changedText_one (name : CollectionName) (c : Changes) (p : Predicate) :
    changedText name c p .one = targetText name p .one ++ (" AND data IS NOT " ++ c.expressionText) := by
  have changed : changedText name c p .one
      = targetText name p .one ++ " AND " ++ (bodyColumn ++ " IS NOT " ++ c.expressionText) := rfl
  have words : " AND data IS NOT " = " AND " ++ (bodyColumn ++ " IS NOT ") := by decide
  rw [changed, words]
  simp only [String.append_assoc]

/-- Before everything the choice of the rows that a change alters is a gap. -/
theorem gap_changedText (name : CollectionName) (c : Changes) (p : Predicate) (cardinality : Cardinality) (rest : List Char) :
    Gap ((changedText name c p cardinality).toList ++ rest) := by
  cases cardinality with
  | many =>
    cases p with
    | nil =>
      rw [changedText_all]
      exact gap_of_blank (head?_append (by decide) _) rest
    | cons u ts =>
      rw [changedText_many, String.append_assoc]
      exact gap_of_blank (head?_append (by decide) _) rest
  | one =>
    rw [changedText_one, String.toList_append, List.append_assoc]
    exact gap_targetText p (gap_of_blank (head?_append (by decide) _) rest) .one

theorem spells_changedText (name : CollectionName) (plain : p.Plain) (c : Changes) (cardinality : Cardinality) :
    Spells [] (changedText name c p cardinality) (p.params.length + c.expressionParams.length) (changedLexemes name c p cardinality) := by
  cases cardinality with
  | many =>
    cases p with
    | nil =>
      have front : phrase " WHERE data IS NOT " = [.word "WHERE", .word "data", .word "IS", .word "NOT"] := phrase_eq (by decide)
      have spells := spells_expression c (a := " WHERE data IS NOT ") (by decide) (by decide) gap_nil
      rw [← changedText_all name, front] at spells
      exact spells.count (Nat.zero_add _).symm
    | cons u ts =>
      have opens : phrase " WHERE (" = [.word "WHERE", .symbol "("] := phrase_eq (by decide)
      have middle : phrase ") AND data IS NOT " = [.symbol ")", .word "AND", .word "data", .word "IS", .word "NOT"] :=
        phrase_eq (by decide)
      have first (cs : List Char) : Spells cs " WHERE (" 0 fun _ => phrase " WHERE (" := by
        refine .of_phrase (by decide) fun v last => ?_
        obtain rfl : (⟨.symbol, "(".toList⟩ : Token) = v := Option.some.inj last
        exact fun d _ => takesIn_alone d (by decide) (by decide)
      have gap : Gap ((") AND data IS NOT " ++ c.expressionText).toList ++ []) :=
        gap_of_head? (head?_append (by decide) _) (.inr (.inr rfl)) []
      have whole := ((first _).append (Predicate.spells_text plain (List.cons_ne_nil u ts) gap)).append
        (spells_expression c (a := ") AND data IS NOT ") (by decide) (by decide) gap_nil)
      rw [← changedText_many name] at whole
      refine (whole.congr fun n => ?_).count (by simp)
      rw [opens, middle, changedLexemes]
      simp
  | one =>
    have and_ : phrase " AND data IS NOT " = [.word "AND", .word "data", .word "IS", .word "NOT"] := phrase_eq (by decide)
    have gap : Gap ((" AND data IS NOT " ++ c.expressionText).toList ++ []) := gap_of_blank (head?_append (by decide) _) []
    have whole := (spells_targetText name plain gap .one).append
      (spells_expression c (a := " AND data IS NOT ") (by decide) (by decide) gap_nil)
    rw [← changedText_one, and_] at whole
    exact whole

/-! ## Reading -/

/-- What a change is about: the chosen rows whose text is another one than the expression makes. -/
def changeTarget (table : String) (c : Changes) (p : Predicate) (cardinality : Cardinality) (n : Nat) : Target :=
  ⟨table, (target table p cardinality n).restrictions ++ [.unlike (c.document (n + p.params.length))]⟩

variable (some_ : c.isEmpty = false) (few : max (1 + 2 * c.assignments.length) (1 + c.unset.length) ≤ limits.arguments)

include some_ few

theorem read_document (m : Nat) {rest : List Lexeme} (stops : Stops rest) :
    Edit.read (c.lexemes m ++ rest).length (c.lexemes m ++ rest) = some (c.document m, rest) := by
  obtain ⟨k, fuel⟩ : ∃ k, (c.lexemes m ++ rest).length = k + 3 := by
    have long := c.length_pos_lexemes m some_
    refine Nat.exists_eq_add_of_le' ?_
    rw [List.length_append]
    omega
  rw [fuel, c.read_lexemes m stops k, if_neg (Nat.not_lt.2 few)]

theorem read_unlike (least m : Nat) :
    Restriction.read least (.word "data" :: .word "IS" :: .word "NOT" :: c.lexemes m) = some (.unlike (c.document m), []) := by
  have lookup : Restriction.lookup? (.word "data" :: .word "IS" :: .word "NOT" :: c.lexemes m) = none := rfl
  have words : takeWords ["data", "is", "not"] (.word "data" :: .word "IS" :: .word "NOT" :: c.lexemes m) = some (c.lexemes m) := rfl
  have document := read_document some_ few m stops_nil
  rw [List.append_nil] at document
  rw [Restriction.read, lookup]
  simp only [words, document]
  rfl

/-- A restriction, and that the text is another one. -/
theorem readAll_unlike {ls : List Lexeme} {x : Restriction} {least m k : Nat}
    (read : Restriction.read least ls = some (x, .word "AND" :: .word "data" :: .word "IS" :: .word "NOT" :: c.lexemes m)) :
    Restriction.readAll (k + 2) least ls = some ([x, .unlike (c.document m)], []) := by
  have and_ : atWord "and" (.word "AND" :: .word "data" :: .word "IS" :: .word "NOT" :: c.lexemes m) = true := rfl
  have last : Restriction.readAll (k + 1) 3 (.word "data" :: .word "IS" :: .word "NOT" :: c.lexemes m)
      = some ([.unlike (c.document m)], []) := by
    rw [Restriction.readAll, read_unlike some_ few 3 m]
    rfl
  rw [Restriction.readAll, read]
  simp only [Option.bind_eq_bind, Option.bind_some, and_, if_true, List.drop_one, List.tail_cons, last]
  rfl

theorem readIn_changedLexemes (name : CollectionName) (p : Predicate) (cardinality : Cardinality) (n : Nat) :
    Target.readIn name.text (changedLexemes name c p cardinality n) = some (changeTarget name.text c p cardinality n, []) := by
  have where_ (inner : List Lexeme) : atWord "where" (.word "WHERE" :: inner) = true := rfl
  cases cardinality with
  | many =>
    cases p with
    | nil =>
      have fuel : (.word "WHERE" :: .word "data" :: .word "IS" :: .word "NOT" :: c.lexemes n : List Lexeme).length
          = (c.lexemes n).length + 3 + 1 := rfl
      show Target.readIn name.text (.word "WHERE" :: .word "data" :: .word "IS" :: .word "NOT" :: c.lexemes n) = _
      rw [Target.readIn, if_pos (where_ _), List.drop_one, List.tail_cons, fuel, Restriction.readAll, read_unlike some_ few 0 n]
      rfl
    | cons u ts =>
      generalize after : (.word "AND" :: .word "data" :: .word "IS" :: .word "NOT" :: c.lexemes (n + (Predicate.params (u :: ts)).length)
        : List Lexeme) = ms
      have inner : expression (Predicate.lexemes n (u :: ts) ++ .symbol ")" :: ms) = some (Predicate.expr n u ts, .symbol ")" :: ms) :=
        Predicate.expression_lexemes rfl n u ts
      have lexemes : changedLexemes name c (u :: ts) .many n
          = .word "WHERE" :: .symbol "(" :: (Predicate.lexemes n (u :: ts) ++ .symbol ")" :: ms) := by
        rw [← after, changedLexemes]
        simp
      have lookup : Restriction.lookup? (.symbol "(" :: (Predicate.lexemes n (u :: ts) ++ .symbol ")" :: ms)) = none := rfl
      have words : takeWords ["data", "is", "not"] (.symbol "(" :: (Predicate.lexemes n (u :: ts) ++ .symbol ")" :: ms)) = none := rfl
      have opens : takeSymbol "(" (.symbol "(" :: (Predicate.lexemes n (u :: ts) ++ .symbol ")" :: ms))
          = some (Predicate.lexemes n (u :: ts) ++ .symbol ")" :: ms) := rfl
      have closes : takeSymbol ")" (.symbol ")" :: ms) = some ms := rfl
      have read : Restriction.read 0 (.symbol "(" :: (Predicate.lexemes n (u :: ts) ++ .symbol ")" :: ms))
          = some (.condition (Predicate.expr n u ts), ms) := by
        rw [Restriction.read, lookup]
        simp only [words, opens, inner, closes, Option.bind_eq_bind, Option.bind_some]
        rfl
      rw [← after] at read
      obtain ⟨k, fuel⟩ : ∃ k, (.word "WHERE" :: .symbol "(" :: (Predicate.lexemes n (u :: ts) ++ .symbol ")" :: ms) : List Lexeme).length
          = k + 2 := ⟨_, rfl⟩
      rw [lexemes, Target.readIn, if_pos (where_ _), List.drop_one, List.tail_cons, fuel, ← after, readAll_unlike some_ few read]
      rfl
  | one =>
    obtain ⟨inner, lexemes, read⟩ := read_numbered name p n 0
      (.word "AND" :: .word "data" :: .word "IS" :: .word "NOT" :: c.lexemes (n + p.params.length))
    have whole : changedLexemes name c p .one n = .word "WHERE" :: inner := lexemes
    obtain ⟨k, fuel⟩ : ∃ k, (.word "WHERE" :: inner : List Lexeme).length = k + 2 := by
      cases inner with
      | nil => cases read
      | cons l ls => exact ⟨ls.length, rfl⟩
    rw [whole, Target.readIn, if_pos (where_ _), List.drop_one, List.tail_cons, fuel, readAll_unlike some_ few read]
    rfl

omit some_ few in
theorem exists_changedLexemes (name : CollectionName) (c : Changes) (p : Predicate) (cardinality : Cardinality) (n : Nat) :
    ∃ inner, changedLexemes name c p cardinality n = .word "WHERE" :: inner := by
  cases cardinality with
  | many => cases p <;> exact ⟨_, rfl⟩
  | one =>
    obtain ⟨inner, lexemes, -⟩ := read_numbered name p n 0
      (.word "AND" :: .word "data" :: .word "IS" :: .word "NOT" :: c.lexemes (n + p.params.length))
    exact ⟨inner, lexemes⟩

omit some_ few in
theorem spells_change (plain : p.Plain) : Spells [] ((change c p cardinality now).text name r) (change c p cardinality now).params.length
    fun n => .word "UPDATE" :: .quoted name.text true :: .word "SET" :: .word "data" :: .symbol "=" :: (c.lexemes n
      ++ (.symbol "," :: .word "updated_at" :: .symbol "=" :: .param (n + c.expressionParams.length)
        :: changedLexemes name c p cardinality (n + c.expressionParams.length + 1))) := by
  have sets : phrase " SET data = " = [.word "SET", .word "data", .symbol "="] := phrase_eq (by decide)
  have times : phrase ", updated_at = " = [.symbol ",", .word "updated_at", .symbol "="] := phrase_eq (by decide)
  have update : phrase "UPDATE " = [.word "UPDATE"] := phrase_eq (by decide)
  have chosen := spells_changedText name plain c cardinality
  have gap := gap_changedText name c p cardinality []
  have mark : Spells ((changedText name c p cardinality).toList ++ []) "?" 1 fun n => [.param n] :=
    .mark (gap.ends (by decide) (by decide) (by decide))
  have time : Spells ("?".toList ++ ((changedText name c p cardinality).toList ++ [])) ", updated_at = " 0
      fun _ => phrase ", updated_at = " := .before rfl (by decide)
  have rest := (time.append mark).append chosen
  have gap' : Gap ((", updated_at = " ++ "?" ++ changedText name c p cardinality).toList ++ []) :=
    gap_of_head? (head?_append (head?_append (by decide) _) _) (.inr (.inl rfl)) []
  have body := (spells_expression c (a := " SET data = ") (by decide) (by decide) gap').append rest
  have gap'' : Gap ((" SET data = " ++ c.expressionText ++ (", updated_at = " ++ "?" ++ changedText name c p cardinality)).toList ++ []) :=
    gap_of_blank (head?_append (head?_append (by decide) _) _) []
  have whole := spells_from name "UPDATE " (by decide) gap'' body
  have text : "UPDATE " ++ name.quoted ++ (" SET data = " ++ c.expressionText
      ++ (", updated_at = " ++ "?" ++ changedText name c p cardinality)) = (change c p cardinality now).text name r := by
    have changed : (change c p cardinality now).text name r = "UPDATE " ++ name.quoted ++ " SET data = " ++ c.expressionText
      ++ ", updated_at = ?" ++ changedText name c p cardinality := rfl
    have words : ", updated_at = ?" = ", updated_at = " ++ "?" := by decide
    rw [changed, words]
    simp only [String.append_assoc]
  rw [text, update, sets, times] at whole
  refine (whole.congr fun n => ?_).count ?_
  · simp
  · simp [params]
    omega

omit some_ few in
/-- What is changed: the body, the time after it, and the rows. -/
theorem read_update {ls ms : List Lexeme} {d : Edit} {target : Target} {k : Nat}
    (document : Edit.read ls.length ls = some (d, .symbol "," :: .word "updated_at" :: .symbol "=" :: .param k :: ms))
    (stops : connective? ms = none) (rows : Target.readIn name.text ms = some (target, [])) :
    Query.read (.word "UPDATE" :: .quoted name.text true :: .word "SET" :: .word "data" :: .symbol "=" :: ls)
      = some (.update d (.param k) target, []) := by
  have time : expression (.param k :: ms) = some (.param k, ms) := expression_single (fun _ => rfl) stops
  have front : Query.read (.word "UPDATE" :: .quoted name.text true :: .word "SET" :: .word "data" :: .symbol "=" :: ls)
      = (Edit.read ls.length ls).bind fun p => (do
        let time ← expression (← takeSymbol "=" (← takeWord "updated_at" (← takeSymbol "," p.2)))
        let t ← Target.readIn name.text time.2
        return (.update p.1 time.1 t.1, t.2)) := rfl
  have words : (takeSymbol "," (.symbol "," :: .word "updated_at" :: .symbol "=" :: .param k :: ms)
      = some (.word "updated_at" :: .symbol "=" :: .param k :: ms))
    ∧ takeWord "updated_at" (.word "updated_at" :: .symbol "=" :: .param k :: ms) = some (.symbol "=" :: .param k :: ms)
    ∧ takeSymbol "=" (.symbol "=" :: .param k :: ms) = some (.param k :: ms) := ⟨rfl, rfl, rfl⟩
  rw [front, document]
  simp only [Option.bind_some, words, Option.bind_eq_bind, time, rows]
  rfl

omit few in
/-- What a change alters. -/
theorem read?_change (plain : p.Plain) (fits : (change c p cardinality now).Fits) :
    Query.read? ((change c p cardinality now).text name r) (change c p cardinality now).params.length
      = some (.update (c.document 0) (.param c.expressionParams.length)
        (changeTarget name.text c p cardinality (c.expressionParams.length + 1))) := by
  obtain ⟨-, -, few, room⟩ := isWithinLimits_iff.1 fits.1
  obtain ⟨inner, lexemes⟩ := exists_changedLexemes name c p cardinality (c.expressionParams.length + 1)
  have comma : Stops (.symbol "," :: .word "updated_at" :: .symbol "=" :: .param c.expressionParams.length
      :: changedLexemes name c p cardinality (c.expressionParams.length + 1)) := stops_symbol rfl (by decide)
  have document := read_document some_ few 0 comma
  refine read?_of_spells (spells_change plain) room ?_
  simp only [Nat.zero_add]
  exact read_update document (by rw [lexemes]; rfl) (readIn_changedLexemes some_ few name p cardinality (c.expressionParams.length + 1))

/-! ## Doing -/

omit some_ few

/-- Two texts are the same if they are equal. -/
theorem same_text (a b : String) : Expr.same .text .binary (.text a) (.text b) = decide (a = b) := by
  have ordered : Value.compare? .text .binary (.text a) (.text b) = some (Value.textOrder a.toList b.toList) := rfl
  rw [Expr.same, ordered, Bool.eq_iff_iff, decide_eq_true_iff, ← String.toList_inj, ← Value.textOrder_eq_eq]
  exact beq_iff_eq

/-- The changes make another text of the row. -/
def alters (c : Changes) (row : Row) : Bool := decide ((c.edit row.data.tree).text ≠ row.data.text)

/-- Of the rows that a filter chooses those are left that the changes alter. -/
theorem run_changeTarget (cardinality : Cardinality) (found : db.table? name.text = some t) (serves : Serves t p) (short : ∀ u ∈ p, u.isTooLong = false)
    {e : Edit} (resolved : (c.document (n + p.params.length)).resolve t.scope = some e)
    (values : ∀ row : Row, e.eval row.look params = some (.text (c.edit row.data.tree).text))
    (placed : Value.Placed params n p.params) :
    (changeTarget name.text c p cardinality n).run db params = .ok ((t.targets p cardinality).filter (alters c)) := by
  have there : db.tableOf (changeTarget name.text c p cardinality n).table = .ok t := Database.tableOf_eq_ok.2 found
  have chosen := run_target found serves.number serves.numbered serves.known short placed cardinality
  have table : db.tableOf (target name.text p cardinality n).table = .ok t := by
    cases cardinality <;> exact Database.tableOf_eq_ok.2 found
  rw [Target.run, table, ok_bind] at chosen
  rw [Target.run, there, ok_bind, changeTarget, List.foldlM_append, chosen, ok_bind]
  have kept : Restriction.keep db t params (t.targets p cardinality) (.unlike (c.document (n + p.params.length)))
      = .ok ((t.targets p cardinality).filter (alters c)) := by
    rw [Restriction.keep, resolved]
    refine filterM_ok fun row _ => ?_
    have column : row.column .data = .text row.data.text := rfl
    rw [Row.documentOf, values row, column]
    show Except.ok (!Expr.same .text .binary (.text row.data.text) (.text (c.edit row.data.tree).text)) = _
    rw [same_text, alters, ← decide_not]
    exact congrArg Except.ok (decide_eq_decide.2 ne_comm)
  show (Restriction.keep db t params (t.targets p cardinality) (.unlike (c.document (n + p.params.length)))).bind pure = _
  rw [kept]
  rfl

/-- A new body is only refused because its text is no document. -/
theorem refused_of_withBody {row : Row} {text : String} {time : Int} {e : EngineError} (refused : row.withBody text time = .error e) :
    e = .constraint "CHECK constraint failed: json_valid(data)" := by
  unfold Row.withBody Database.validBody at refused
  cases made : Body.ofText? text with
  | none =>
    rw [made] at refused
    cases refused
    rfl
  | some body =>
    rw [made] at refused
    cases refused

theorem refused_of_edits {e : EngineError} (refused : Database.edits c now rows = .error e) :
    e = .constraint "CHECK constraint failed: json_valid(data)" := by
  induction rows with
  | nil => cases refused
  | cons row rows ih =>
    rw [Database.edits, List.foldrM_cons, ← Database.edits] at refused
    cases later : Database.edits c now rows with
    | error e' =>
      rw [later] at refused
      cases refused
      exact ih later
    | ok rest =>
      rw [later, ok_bind] at refused
      simp only at refused
      cases here : row.withBody (c.edit row.data.tree).text now with
      | error e' =>
        rw [here] at refused
        split at refused
        · cases refused
        · cases refused
          exact refused_of_withBody here
      | ok row' =>
        rw [here] at refused
        split at refused <;> cases refused

/-- The new states of the rows that the changes alter. -/
theorem mapM_alters (c : Changes) (now : Int) (rows : List Row) :
    (rows.filter (alters c)).mapM (fun row => (do
      return (row, ← row.withBody (c.edit row.data.tree).text now) : Except EngineError (Row × Row))) = Database.edits c now rows := by
  induction rows with
  | nil => rfl
  | cons row rows ih =>
    rw [Database.edits, List.foldrM_cons, ← Database.edits]
    by_cases same : (c.edit row.data.tree).text = row.data.text
    · rw [List.filter_cons_of_neg (by simp [alters, same]), ih]
      cases Database.edits c now rows <;> simp [same]
    · rw [List.filter_cons_of_pos (by simp [alters, same]), List.mapM_cons, ih]
      -- The rows are edited from the last one on, so that another one may be refused first.
      cases here : row.withBody (c.edit row.data.tree).text now with
      | ok row' =>
        cases Database.edits c now rows with
        | ok rest => simp [same, here]
        | error e => rfl
      | error e =>
        cases later : Database.edits c now rows with
        | ok rest => simp [same, here]
        | error e' => rw [refused_of_withBody here, refused_of_edits later]; rfl

theorem updateRows_congr {changes : Table → Except EngineError (List (Row × Row))} {table : String} (there : db.tableOf table = .ok t)
    (changes' : Table → Except EngineError (List (Row × Row))) (same : changes t = changes' t) : db.updateRows table changes = db.updateRows table changes' := by
  unfold Database.updateRows
  rw [there]
  simp only [ok_bind, same]

/-- The engine that is given the text of a change makes of the rows what their change is answered with. -/
theorem isExecuted_change (found : db.table? name.text = some t) (serves : Serves t p) (fits : (change c p cardinality now).Fits)
    (some_ : c.isEmpty = false) (finite : ∀ e ∈ c.set, e.2.isFinite = true) (within : c.isWithinLimits = true) :
    (change c p cardinality now).IsExecuted db name r := by
  have there := Database.tableOf_eq_ok.2 found
  have shallow : c.set.all (fun e => e.2.tree.depth ≤ limits.documentDepth) = true := (Bool.and_eq_true_iff.1 within).2
  generalize params : (change c p cardinality now).params = vs
  have whole : vs = c.expressionParams ++ .integer now :: (p.params ++ c.expressionParams) := by rw [← params, Statement.params]; simp
  have placed : Value.Placed vs 0 (c.expressionParams ++ .integer now :: (p.params ++ c.expressionParams)) := whole ▸ .whole vs
  have later : Value.Placed vs c.expressionParams.length (.integer now :: (p.params ++ c.expressionParams)) := by
    simpa using placed.right
  have chosen : Value.Placed vs (c.expressionParams.length + 1) (p.params ++ c.expressionParams) := later.tail
  obtain ⟨e, resolved, values⟩ := c.eval_document (t := t) some_ finite placed.left
  obtain ⟨e', resolved', values'⟩ := c.eval_document (t := t) some_ finite chosen.right
  simp only [shallow, if_true] at values values'
  have targets := run_changeTarget cardinality found serves fits.2 resolved' values' chosen.left
  have time (row : Row) : row.valueOf vs (.param c.expressionParams.length) = .ok (.integer now) := by
    rw [Row.valueOf, Expr.eval, later.head]
    rfl
  have made (row : Row) : (do return (row, ← row.withValues (← row.documentOf vs e) (← row.valueOf vs (.param c.expressionParams.length)))
      : Except EngineError (Row × Row)) = (do return (row, ← row.withBody (c.edit row.data.tree).text now)) := by
    rw [Row.documentOf, values row, time row]
    rfl
  have target_ : (changeTarget name.text c p cardinality (c.expressionParams.length + 1)).table = name.text := rfl
  refine isExecuted_of_read fits (read?_change some_ serves.plain fits) ?_
  have states : ((changeTarget name.text c p cardinality (c.expressionParams.length + 1)).run db vs).bind (fun rows =>
      rows.mapM fun row => do return (row, ← row.withValues (← row.documentOf vs e) (← row.valueOf vs (.param c.expressionParams.length))))
      = Database.edits c now (t.targets p cardinality) := by
    rw [targets]
    simp only [made]
    exact mapM_alters c now _
  rw [params, Database.perform, Database.answer, target_, there, ok_bind, resolved]
  show (db.updateRows name.text fun _ => ((changeTarget name.text c p cardinality (c.expressionParams.length + 1)).run db vs).bind
    fun rows => rows.mapM fun row => do
      return (row, ← row.withValues (← row.documentOf vs e) (← row.valueOf vs (.param c.expressionParams.length)))).bind _ = _
  rw [updateRows_congr there (fun t => Database.edits c now (t.targets p cardinality)) states]
  cases db.updateRows name.text fun t => Database.edits c now (t.targets p cardinality) <;> rfl

/-! ## Overwriting -/

/-- The filter by which a row is overwritten. -/
def identified (id : String) : Predicate := [.compare (.system .id) .eq (.text id)]

variable {id body : String}

theorem plain_identified (id : String) : (identified id).Plain := by
  simp [identified, Predicate.Plain, Term.operand?]
  decide

theorem spells_overwrite : Spells [] ((overwrite id body now).text name r) 3
    fun n => .word "UPDATE" :: .quoted name.text true :: .word "SET" :: .word "data" :: .symbol "=" :: .param n
      :: .symbol "," :: .word "updated_at" :: .symbol "=" :: .param (n + 1) :: (identified id).whereLexemes (n + 2) := by
  have sets : phrase " SET data = " = [.word "SET", .word "data", .symbol "="] := phrase_eq (by decide)
  have times : phrase ", updated_at = " = [.symbol ",", .word "updated_at", .symbol "="] := phrase_eq (by decide)
  have update : phrase "UPDATE " = [.word "UPDATE"] := phrase_eq (by decide)
  have gap : Gap ((identified id).whereText.toList ++ []) := (identified id).gap_whereText gap_nil
  have gap' : Gap ((", updated_at = " ++ "?" ++ (identified id).whereText).toList ++ []) :=
    gap_of_head? (head?_append (head?_append (by decide) _) _) (.inr (.inl rfl)) []
  have mark {cs : List Char} (gap : Gap cs) : Spells cs "?" 1 fun n => [.param n] := .mark (gap.ends rfl rfl rfl)
  have times_ : Spells ("?".toList ++ ((identified id).whereText.toList ++ [])) ", updated_at = " 0 fun _ => phrase ", updated_at = " :=
    .before rfl (by decide)
  have time := times_.append (mark gap)
  have rest := time.append ((identified id).spells_whereText (plain_identified id) gap_nil)
  have sets_ := ((Spells.before (a := " SET data = ") rfl (by decide)).append (mark gap')).append rest
  have gap'' : Gap ((" SET data = " ++ "?" ++ (", updated_at = " ++ "?" ++ (identified id).whereText)).toList ++ []) :=
    gap_of_blank (head?_append (by decide) _) []
  have whole := spells_from name "UPDATE " (by decide) gap'' sets_
  have text : "UPDATE " ++ name.quoted ++ (" SET data = " ++ "?" ++ (", updated_at = " ++ "?" ++ (identified id).whereText))
      = (overwrite id body now).text name r := by
    have changed : (overwrite id body now).text name r = "UPDATE " ++ name.quoted ++ " SET data = ?, updated_at = ? WHERE id = ?" := rfl
    have words : " SET data = ?, updated_at = ? WHERE id = ?"
        = " SET data = " ++ "?" ++ (", updated_at = " ++ "?" ++ (identified "").whereText) := by decide
    rw [changed, words]
    simp only [String.append_assoc]
    rfl
  rw [text, update, sets, times] at whole
  exact (whole.congr fun n => by simp).count rfl

/-- What is overwritten. -/
theorem read?_overwrite : Query.read? ((overwrite id body now).text name r) 3
    = some (.update (.source (.param 0)) (.param 1) (target name.text (identified id) .many 2)) := by
  have document (ls : List Lexeme) : Edit.read (.param 0 :: .symbol "," :: ls : List Lexeme).length (.param 0 :: .symbol "," :: ls)
      = some (.source (.param 0), .symbol "," :: ls) := by
    have value : expression (.param 0 :: .symbol "," :: ls) = some (.param 0, .symbol "," :: ls) := expression_single (fun _ => rfl) rfl
    rw [List.length_cons, Edit.read, value]
    · rfl
    · exact fun f after eq => by cases eq
  have rows := readIn_whereLexemes name.text (identified id) 2 Listing.closes_nil
  rw [List.append_nil] at rows
  exact read?_of_spells spells_overwrite (by decide) (read_update (document _) rfl rows)

/-- The engine that is given the text by which a row is overwritten does what the statement is answered with. -/
theorem isExecuted_overwrite (found : db.table? name.text = some t) (number : t.column? orderColumn = some .rowid) (numbered : t.Numbered) :
    (overwrite id body now).IsExecuted db name r := by
  have there := Database.tableOf_eq_ok.2 found
  have known : ∀ u ∈ identified id, ∀ v ∈ u.operand?, v.Known t := by
    simp [identified, Term.operand?, Operand.Known]
  have placed : Value.Placed (overwrite id body now).params 2 (identified id).params := List.prefix_refl _
  have targets := run_target found number numbered known (by simp [identified, Term.isTooLong]) placed .many
  have selected : t.targets (identified id) .many = t.rows.filter fun row => row.id = id := by
    show t.select (identified id) = _
    refine List.filter_congr fun row _ => ?_
    have tested : Value.test .eq .text .binary (.text row.id) (.text id) = some (decide (row.id = id)) := Value.test_text rfl row.id
    have holds : (identified id).holds row.read = Truth.all [Value.test .eq .text .binary (.text row.id) (.text id)] := rfl
    rw [holds, tested]
    by_cases same : row.id = id <;> simp [same] <;> rfl
  refine isExecuted_of_read (fits_overwrite id body now) read?_overwrite ?_
  have states : ((target name.text (identified id) .many 2).run db (overwrite id body now).params).bind (fun rows => rows.mapM fun row => do
      return (row, ← row.withValues (← row.documentOf (overwrite id body now).params (.source (.param 0)))
        (← row.valueOf (overwrite id body now).params (.param 1))))
      = (t.rows.filter fun row => row.id = id).mapM fun row => do return (row, ← row.withBody body now) := by
    rw [targets, selected]
    rfl
  have table : (target name.text (identified id) .many 2).table = name.text := rfl
  rw [Database.perform, Database.answer, table, there]
  show (db.updateRows name.text fun _ => ((target name.text (identified id) .many 2).run db (overwrite id body now).params).bind
    fun rows => rows.mapM fun row => do
      return (row, ← row.withValues (← row.documentOf (overwrite id body now).params (.source (.param 0)))
        (← row.valueOf (overwrite id body now).params (.param 1)))).bind _ = _
  rw [updateRows_congr there (fun t => (t.rows.filter fun row => row.id = id).mapM fun row => do
    return (row, ← row.withBody body now)) states]
  cases db.updateRows name.text fun t => (t.rows.filter fun row => row.id = id).mapM fun row => do
    return (row, ← row.withBody body now) <;> rfl

end Statement

end Dossier
