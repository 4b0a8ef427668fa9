import Dossier.Proofs.Json.Writing
import Dossier.Proofs.Raw.Rewriting

/-!
# The condition of a check

A check constraint looks for rows of which the rewritten formula is not true. What the engine reads in the text of the trigger
is the negation of the formula, each field read from the new body (`violation?_of_formula?`).
-/

namespace Dossier

open Text Sql

/-! ## Paths -/

/-- The characters of a segment need no escape in a JSON string. -/
theorem escapeChar_of_isSegmentChar {c : Char} (h : isSegmentChar c = true) : escapeChar c = [c] := by
  have place : 45 ≤ c.toNat ∧ c.toNat ≠ 92 := by
    simp only [isSegmentChar, Bool.or_eq_true, beq_iff_eq] at h
    rcases h with (letter | rfl) | rfl
    · unfold isAlphanumeric at letter
      split at letter
      · rw [isAlphanum_iff_toNat] at letter
        omega
      · rename_i past
        simp only [isAscii, decide_eq_true_eq] at past
        omega
    · decide
    · decide
  have long : shortEscape? c = none := by
    unfold shortEscape?
    split <;> first | rfl | omega
  simp [escapeChar, long, show ¬ c.toNat < 0x20 by omega]

theorem IsSegment.escapeString_eq {s : String} (h : IsSegment s) : escapeString s = s.toList := by
  unfold escapeString
  obtain ⟨-, all⟩ := h
  generalize s.toList = cs at all ⊢
  induction cs with
  | nil => rfl
  | cons c cs ih =>
    rw [List.all_cons, Bool.and_eq_true] at all
    rw [List.flatMap_cons, escapeChar_of_isSegmentChar all.1, ih all.2]
    rfl

namespace PathStep

theorem quotedKey?_append {key rest : List Char} (plain : key.all isSegmentChar = true) :
    quotedKey? (key ++ '"' :: rest) = some (key, rest) := by
  induction key with
  | nil => rfl
  | cons c key ih =>
    rw [List.all_cons, Bool.and_eq_true] at plain
    rw [List.cons_append, quotedKey?]
    · rw [ih plain.2]
      rfl
    · rintro rfl
      exact absurd plain.1 (by decide)
    · rintro d more rfl
      exact absurd plain.1 (by decide)

/-- The engine reads the segments of a path in its text. -/
theorem steps_segments {segments : List String} (plain : ∀ s ∈ segments, IsSegment s) {fuel : Nat}
    (enough : segments.length ≤ fuel) :
    steps fuel (segments.flatMap fun s => '.' :: '"' :: s.toList ++ ['"']) = segments.map member := by
  induction segments generalizing fuel with
  | nil => cases fuel <;> rfl
  | cons s rest ih =>
    obtain ⟨here, later⟩ := List.forall_mem_cons.1 plain
    obtain ⟨fuel, rfl⟩ := Nat.exists_eq_add_of_le' (Nat.le_trans (Nat.succ_le_succ (Nat.zero_le _)) enough)
    have text : (s :: rest).flatMap (fun s => '.' :: '"' :: s.toList ++ ['"'])
        = '.' :: '"' :: (s.toList ++ '"' :: rest.flatMap fun s => '.' :: '"' :: s.toList ++ ['"']) := by simp
    rw [text, steps, quotedKey?_append here.2]
    simp only
    rw [ih later (Nat.le_of_succ_le_succ enough), List.map_cons, ← here.escapeString_eq, stringText_escapeString]

end PathStep

theorem FieldPath.parse_jsonPath (path : FieldPath) : PathStep.parse path.jsonPath = some (path.segments.map PathStep.member) := by
  unfold PathStep.parse FieldPath.jsonPath
  rw [String.toList_ofList]
  refine congrArg some (PathStep.steps_segments path.plain ?_)
  induction path.segments with
  | nil => exact Nat.zero_le _
  | cons s rest ih =>
    simp only [List.flatMap_cons, List.length_append, List.length_cons]
    omega

theorem Tree.follow_members (segments : List String) (t : Tree) :
    t.follow (segments.map PathStep.member) = match t.lookup? segments with
      | some found => .value found
      | none => .nothing := by
  induction segments generalizing t with
  | nil => rfl
  | cons s rest ih =>
    rw [List.map_cons, Tree.follow, Tree.lookup?, Tree.atStep?]
    · cases t.child? s with
      | none => rfl
      | some found => exact ih found
    · nofun

/-- What stands in the text of a body at a path is what the body holds there. -/
theorem Body.lookupIn?_jsonPath (f : Tree → Value) (b : Body) (path : FieldPath) :
    Value.lookupIn? f (.text b.text) (.text path.jsonPath) = some (((b.tree.lookup? path.segments).map f).getD .null) := by
  unfold Value.lookupIn? Value.text?
  simp only [b.reads, path.parse_jsonPath, Tree.follow_members]
  cases b.tree.lookup? path.segments <;> rfl

theorem Body.extract?_jsonPath (b : Body) (path : FieldPath) :
    Value.extract? (.text b.text) (.text path.jsonPath) = some (b.extract path) := b.lookupIn?_jsonPath Tree.value path

/-! ## The text of a trigger -/

namespace Raw

variable {source fragment message : String} {c : Char} {cs : List Char} {t : Token} {ts : List Token} {terms : List Term}

theorem ne_param_of_numberLexeme? {l : Lexeme} (made : numberLexeme? cs = some l) (i : Nat) : l ≠ .param i := by
  rintro rfl
  simp only [numberLexeme?, Option.ite_none_right_eq_some] at made
  obtain ⟨-, made⟩ := made
  split at made
  · unfold hexadecimal? at made
    split at made
    · split at made <;> cases made
    · cases made
  · split at made
    · cases made
    · obtain ⟨_, -, other⟩ := Option.map_eq_some_iff.1 made
      cases other

/-- No token but a placeholder is a parameter. -/
theorem ne_param_of_lexeme? {l : Lexeme} (made : t.lexeme? = some l) (i : Nat) : l ≠ .param i := by
  unfold Token.lexeme? at made
  split at made
  · cases made; nofun
  · cases made; nofun
  · cases made; nofun
  · exact ne_param_of_numberLexeme? made i
  · split at made <;> cases made <;> nofun
  · cases made

/-- No term is a parameter. -/
theorem ne_param_of_terms? (ts : List Token) {terms : List Term} (made : terms? ts = some terms) {l : Lexeme}
    (mem : .lexeme l ∈ terms) (i : Nat) : l ≠ .param i := by
  match ts with
  | [] =>
    obtain rfl : [] = terms := by simpa [terms?] using made
    cases mem
  | t :: ts =>
    rcases terms?_cons made with ⟨-, -, made'⟩ | ⟨-, -, term, others, one, made', rfl⟩ | ⟨-, -, -, l', others, lexeme, made', rfl⟩
    · exact ne_param_of_terms? ts made' mem i
    · rcases List.mem_cons.1 mem with rfl | mem
      · rcases resolveWord_of_term? "" one with ⟨same, -⟩ | ⟨path, other, -⟩
        · cases same
          rintro ⟨⟩
        · cases other
      · exact ne_param_of_terms? _ made' mem i
    · rcases List.mem_cons.1 mem with same | mem
      · cases same
        exact ne_param_of_lexeme? lexeme i
      · exact ne_param_of_terms? ts made' mem i
termination_by ts.length
decreasing_by
  all_goals
    have := length_dotted_le ts
    simp only [List.length_cons]
    omega

/-- The terms with their fields extracted are the lexemes of the formula with its parameters written out. -/
theorem flatMap_extracted (plain : ∀ l, .lexeme l ∈ terms → ∀ i, l ≠ .param i) : terms.flatMap Term.extracted
    = (terms.map (Term.lexemeIn (Term.fields terms))).flatMap (Lexeme.expand ((Term.fields terms).map FieldPath.jsonPath)) := by
  rw [List.flatMap_map]
  refine congrArg List.flatten (List.map_congr_left fun term mem => ?_)
  cases term with
  | lexeme l =>
    have ne := plain l mem
    cases l with
    | param i => exact absurd rfl (ne i)
    | word | quoted | string | whole | real | symbol => rfl
  | field path =>
    have known : path ∈ Term.fields terms := List.mem_filterMap.2 ⟨_, mem, rfl⟩
    have found : ((Term.fields terms).map FieldPath.jsonPath)[(Term.fields terms).idxOf path]? = some path.jsonPath := by
      rw [List.getElem?_map, List.getElem?_eq_getElem (List.idxOf_lt_length_of_mem known), List.getElem_idxOf]
      rfl
    simp [Term.extracted, Term.lexemeIn, Lexeme.expand, found]

theorem nul_not_mem_pieces {ps : List Piece} (plain : '\x00' ∉ ps.flatMap Piece.chars) (source_ : '\x00' ∉ source.toList) :
    '\x00' ∉ resolvePieces source ps := by
  induction ps with
  | nil => exact List.not_mem_nil
  | cons p rest ih =>
    rw [List.flatMap_cons, List.mem_append, not_or] at plain
    cases p with
    | word w =>
      rw [resolvePieces, List.mem_append, not_or]
      refine ⟨?_, ih plain.2⟩
      unfold resolveWord
      simp only
      split
      · exact plain.1
      split
      · decide
      split
      · exact plain.1
      split
      · rename_i path _
        have inside : '\x00' ∉ path.jsonPath.toList := fun mem => by
          rcases mem_jsonPath mem with h | h | h | h <;> exact absurd h (by decide)
        simp [extractText_eq, FieldPath.literal, String.toList_append, source_, inside]
      · exact plain.1
    | quoted | placeholder | number | other =>
      rw [resolvePieces, List.mem_append, not_or]
      · exact ⟨plain.1, ih plain.2⟩
      · rintro _ ⟨⟩

theorem untilNul_append {a b : String} (plain : '\x00' ∉ a.toList) : Like.untilNul (a ++ b) = a.toList ++ Like.untilNul b := by
  unfold Like.untilNul
  rw [String.toList_append, List.takeWhile_append_of_pos]
  intro c mem
  refine bne_iff_ne.2 fun zero => plain ?_
  have nul : c = '\x00' := Char.ext (UInt32.toNat_inj.1 zero)
  exact nul ▸ mem

theorem untilNul_of_not_mem {s : String} (plain : '\x00' ∉ s.toList) : Like.untilNul s = s.toList := by
  simpa [Like.untilNul] using untilNul_append (b := "") plain

/-- The engine reads the negated terms of a formula in the condition of a trigger, and then what follows. -/
theorem lexemes?_negated (alone : extracts fragment = false) (plain : '\x00' ∉ fragment.toList)
    (made : terms? (tokens fragment.toList) = some terms) (apart : numbersApart (tokens fragment.toList) = true) (tail : String) :
    lexemes? ("NOT (" ++ resolve Check.newBody fragment ++ ")" ++ tail) = (lexemes? tail).map fun p =>
      (.word "NOT" :: .symbol "(" :: (terms.flatMap Term.extracted ++ .symbol ")" :: p.1), p.2) := by
  have condition : (resolve Check.newBody fragment).toList = rewritten Check.newBody fragment.toList := by
    simp [resolve, alone, rewritten]
  have nul : '\x00' ∉ ("NOT (" ++ resolve Check.newBody fragment ++ ")").toList := by
    have inside : '\x00' ∉ rewritten Check.newBody fragment.toList :=
      nul_not_mem_pieces (by rwa [flatMap_chars_pieces]) (by decide)
    simp [String.toList_append, condition, inside]
  have stand : Stand (rewritten Check.newBody fragment.toList ++ (')' :: Like.untilNul tail))
      [⟨.word, "NOT".toList⟩, ⟨.blank, [' ']⟩, ⟨.symbol, ['(']⟩] :=
    ⟨⟨_, _, rfl, by decide⟩, ends_cons rfl, ⟨_, _, rfl, by decide⟩, ends_cons rfl,
      ⟨_, _, rfl, by decide⟩, fun d _ => takesIn_alone d (by decide) (by decide), trivial⟩
  have bracket : Stand (Like.untilNul tail) [⟨.symbol, [')']⟩] :=
    ⟨⟨_, _, rfl, by decide⟩, fun d _ => takesIn_alone d (by decide) (by decide), trivial⟩
  have close : tokens (')' :: Like.untilNul tail) = ⟨.symbol, [')']⟩ :: tokens (Like.untilNul tail) := tokens_of_stand bracket
  have text : ("NOT (" ++ resolve Check.newBody fragment ++ ")").toList ++ Like.untilNul tail
      = [⟨.word, "NOT".toList⟩, ⟨.blank, [' ']⟩, ⟨.symbol, ['(']⟩].flatMap Token.text
        ++ (rewritten Check.newBody fragment.toList ++ (')' :: Like.untilNul tail)) := by
    simp [String.toList_append, condition]
  unfold lexemes?
  rw [untilNul_append nul, text, tokens_of_stand stand]
  simp only [List.cons_append, List.nil_append]
  have blank : ∀ s ts, lexemesFrom s (⟨.blank, [' ']⟩ :: ts) = lexemesFrom s ts := fun s ts => by rw [lexemesFrom]
  rw [lexemesFrom_cons _ rfl, blank, lexemesFrom_cons _ rfl, lexemesFrom_rewritten _ made apart rfl _ rfl, close,
    lexemesFrom_cons _ rfl]
  simp only [Option.map_map]
  rfl

end Raw

namespace Sql

variable {paths : List String} {x e : Expr} {ls after : List Lexeme}

theorem length_le_grow (paths : List String) (after ls : List Lexeme) : ls.length + 1 + after.length ≤ (grow paths after ls).length := by
  have each : ls.length ≤ (ls.flatMap (Lexeme.expand paths)).length := by
    induction ls with
    | nil => exact Nat.le_refl _
    | cons l ls ih =>
      have one : 1 ≤ (l.expand paths).length := by
        unfold Lexeme.expand
        split
        · split <;> simp [extraction]
        · simp
      simp only [List.flatMap_cons, List.length_append, List.length_cons]
      omega
  simp only [grow, List.length_append, List.length_cons]
  omega

/-- Where no operator follows, an operand is all. -/
theorem operators_of_none {fuel least : Nat} (stops : Grammar.connective? after = none) :
    Grammar.operators (fuel + 1) least x after = some (x, after) := by
  rw [Grammar.operators, stops]

/-- The grammar reads the negation of an expression in parentheses, with its parameters written out, and no more. -/
theorem expression_negated (read : Grammar.expression ls = some (x, [])) (stops : Grammar.connective? after = none) :
    Grammar.expression (.word "NOT" :: .symbol "(" :: grow paths after ls) = some (.unary .not (x.expand paths), after) := by
  have long := length_le_grow paths after ls
  have fuel : 4 * (grow paths after ls).length + 8
      = 4 * ls.length + 4 + (4 * (grow paths after ls).length + 4 - 4 * ls.length) := by omega
  have inner : Grammar.expr (4 * (grow paths after ls).length + 8) 0 (grow paths after ls)
      = some (x.expand paths, .symbol ")" :: after) := by
    rw [fuel]
    exact Grammar.expr_grow read _ (by omega)
  have parenthesis : Grammar.operand (4 * (grow paths after ls).length + 9) (.symbol "(" :: grow paths after ls)
      = some (x.expand paths, after) := by
    rw [Grammar.operand]
    rw [inner]
    rfl
  have negated : Grammar.expr (4 * (grow paths after ls).length + 10) 3 (.symbol "(" :: grow paths after ls)
      = some (x.expand paths, after) := by
    rw [Grammar.expr, parenthesis]
    exact operators_of_none stops
  show Grammar.expr (4 * ((grow paths after ls).length + 2) + 4) 0 _ = _
  rw [show 4 * ((grow paths after ls).length + 2) + 4 = 4 * (grow paths after ls).length + 10 + 1 + 1 by omega, Grammar.expr,
    Grammar.operand_not (by decide), negated]
  exact operators_of_none stops

/-! ## Columns and values -/

variable (paths) in
/-- The expression with each parameter read from the new body of a row. -/
def Expr.ofBody : Expr → Expr
  | .param i =>
    match paths[i]? with
    | some path => .binary .extract (.column ⟨.current, .data⟩) (.value (.text path))
    | none => .param i
  | .unary op x => .unary op x.ofBody
  | .binary op x y => .binary op x.ofBody y.ofBody
  | .ternary op x y z => .ternary op x.ofBody y.ofBody z.ofBody
  | e => e

/-- An extraction is no truth constant, and other expressions are none by themselves in a scope without bare names. -/
theorem truthConstant?_expand {scope : Scope} (bare : ∀ name, scope none name = none) (x : Expr) :
    (x.expand paths).truthConstant? scope = x.truthConstant? fun _ _ => none := by
  cases x with
  | param i =>
    unfold Expr.expand
    split <;> rfl
  | name qualifier text doubleQuoted =>
    cases qualifier with
    | none =>
      cases doubleQuoted with
      | false => simp [Expr.expand, Expr.truthConstant?, bare]
      | true => rfl
    | some q => rfl
  | value | column | unknown | unary | binary | ternary => rfl

/-- The names in a formula stand for themselves, and those of the extractions for the new body. -/
theorem resolve_expand {scope : Scope} (bare : ∀ name, scope none name = none)
    (body : scope (some "NEW") "data" = some ⟨.current, .data⟩) (x : Expr) {e : Expr}
    (resolved : x.resolve (fun _ _ => none) = some e) : (x.expand paths).resolve scope = some (e.ofBody paths) := by
  induction x generalizing e with
  | value v | column place => cases resolved; rfl
  | param i =>
    cases resolved
    unfold Expr.expand Expr.ofBody
    cases paths[i]? with
    | none => rfl
    | some path => simp [extracted, newDocument, Expr.resolve, body]
  | name qualifier text doubleQuoted =>
    unfold Expr.expand
    cases qualifier with
    | some q => cases resolved
    | none =>
      have value : ∃ v, e = .value v := by
        simp only [Expr.resolve, Expr.constant?, Option.isSome_none, Bool.false_eq_true, if_false] at resolved
        split at resolved
        · exact ⟨_, (Option.some.inj resolved).symm⟩
        split at resolved
        · exact ⟨_, (Option.some.inj resolved).symm⟩
        split at resolved
        · exact ⟨_, (Option.some.inj resolved).symm⟩
        · cases resolved
      obtain ⟨v, rfl⟩ := value
      rw [Expr.resolve, bare]
      exact resolved
  | unknown => cases resolved
  | unary op x ih =>
    obtain ⟨x', here, made⟩ := Option.bind_eq_some_iff.1 resolved
    cases made
    exact Option.bind_eq_some_iff.2 ⟨_, ih here, rfl⟩
  | binary op x y ihx ihy =>
    obtain ⟨x', here, made⟩ := Option.bind_eq_some_iff.1 resolved
    refine Option.bind_eq_some_iff.2 ⟨_, ihx here, ?_⟩
    rw [truthConstant?_expand bare]
    split at made
    · cases made
      rfl
    · obtain ⟨y', there, made⟩ := Option.bind_eq_some_iff.1 made
      cases made
      exact Option.bind_eq_some_iff.2 ⟨_, ihy there, rfl⟩
  | ternary op x y z ihx ihy ihz =>
    obtain ⟨x', first, made⟩ := Option.bind_eq_some_iff.1 resolved
    obtain ⟨y', second, made⟩ := Option.bind_eq_some_iff.1 made
    obtain ⟨z', third, made⟩ := Option.bind_eq_some_iff.1 made
    cases made
    exact Option.bind_eq_some_iff.2 ⟨_, ihx first, Option.bind_eq_some_iff.2 ⟨_, ihy second,
      Option.bind_eq_some_iff.2 ⟨_, ihz third, rfl⟩⟩⟩

theorem affinity_ofBody (x : Expr) : (x.ofBody paths).affinity = x.affinity := by
  induction x with
  | param i =>
    unfold Expr.ofBody
    split <;> rfl
  | unary op x ih =>
    cases op with
    | collate c => exact ih
    | cast type => cases type <;> rfl
    | _ => rfl
  | value | name | column | unknown | binary | ternary => rfl

theorem collation?_ofBody (x : Expr) : (x.ofBody paths).collation? = x.collation? := by
  induction x with
  | param i =>
    unfold Expr.ofBody
    split <;> rfl
  | unary op x ih =>
    cases op with
    | collate c => rfl
    | _ => exact ih
  | binary op x y ihx ihy =>
    show (x.ofBody paths).collation?.or (y.ofBody paths).collation? = _
    rw [ihx, ihy]
    rfl
  | ternary op x y z ihx ihy ihz =>
    show ((x.ofBody paths).collation?.or (y.ofBody paths).collation?).or (z.ofBody paths).collation? = _
    rw [ihx, ihy, ihz]
    rfl
  | value | name | column | unknown => rfl

theorem combine_ofBody (x y : Expr) (op : BinaryOp) (a b : Value) :
    Expr.combine (x.ofBody paths) (y.ofBody paths) op a b = Expr.combine x y op a b := by
  have affinity : Expr.commonAffinity (x.ofBody paths) (y.ofBody paths) = Expr.commonAffinity x y := by
    simp only [Expr.commonAffinity, affinity_ofBody]
  have collation : Expr.commonCollation (x.ofBody paths) (y.ofBody paths) = Expr.commonCollation x y := by
    simp only [Expr.commonCollation, collation?_ofBody]
  unfold Expr.combine
  rw [affinity, collation, affinity_ofBody, collation?_ofBody]

/-- Read from the new body, a formula has the value that it has for the body. -/
theorem eval_ofBody {fields : List FieldPath} {read : Place → Value} {b : Body} (body : read ⟨.current, .data⟩ = .text b.text)
    (e : Expr) (closed : e.closed = true) : (e.ofBody (fields.map FieldPath.jsonPath)).eval read []
      = e.eval (fun _ => .null) (fields.map b.extract) := by
  induction e with
  | value v => rfl
  | param i =>
    unfold Expr.ofBody Expr.eval
    rw [List.getElem?_map, List.getElem?_map]
    cases fields[i]? with
    | none => rfl
    | some path =>
      show Value.extract? (read ⟨.current, .data⟩) (.text path.jsonPath) = some (b.extract path)
      rw [body, b.extract?_jsonPath]
  | name | column | unknown => cases closed
  | unary op x ih =>
    show ((x.ofBody (fields.map FieldPath.jsonPath)).eval read []).bind op.apply = _
    rw [ih closed]
    rfl
  | binary op x y ihx ihy =>
    simp only [Expr.closed, Bool.and_eq_true] at closed
    simp only [Expr.ofBody, Expr.eval, ihx closed.1, ihy closed.2, combine_ofBody]
  | ternary op x y z ihx ihy ihz =>
    simp only [Expr.closed, Bool.and_eq_true] at closed
    cases op <;> simp only [Expr.ofBody, Expr.eval, ihx closed.1.1, ihy closed.1.2, ihz closed.2]

end Sql

/-! ## The violation -/

theorem Value.truth_ofTruth (t : Truth) : (ofTruth t).truth = t := by
  rcases t with _ | _ | _ <;> rfl

namespace Raw

variable {fragment message : String} {φ : Formula}

/-- How a fragment is a formula. -/
theorem formula?_eq_some (formula : formula? fragment = some φ) : extracts fragment = false ∧ '\x00' ∉ fragment.toList
    ∧ ∃ terms x, terms? (tokens fragment.toList) = some terms ∧ φ.fields = Term.fields terms
      ∧ Grammar.expression (terms.map (Term.lexemeIn φ.fields)) = some (x, []) ∧ x.resolve (fun _ _ => none) = some φ.expr
      ∧ φ.expr.closed = true := by
  unfold formula? at formula
  split at formula
  · cases formula
  rename_i plain
  obtain ⟨terms, made, formula⟩ := Option.bind_eq_some_iff.1 formula
  obtain ⟨⟨x, rest⟩, read, formula⟩ := Option.bind_eq_some_iff.1 formula
  obtain ⟨e, resolved, formula⟩ := Option.bind_eq_some_iff.1 formula
  obtain ⟨whole, formula⟩ := Option.ite_none_right_eq_some.1 formula
  cases formula
  simp only [Bool.and_eq_true, List.isEmpty_iff] at whole
  obtain ⟨rfl, closed⟩ := whole
  simp only [Bool.or_eq_true, List.contains_iff_mem, not_or, Bool.not_eq_true] at plain
  exact ⟨plain.1, plain.2, terms, x, made, rfl, read, resolved, closed⟩

/-- What stands after the condition of a trigger goes on with no operator. -/
theorem connective?_triggerBody {tail : List Lexeme} {count : Nat}
    (read : lexemes? (Check.triggerBody message) = some (tail, count)) : Grammar.connective? tail = none := by
  have first : " BEGIN SELECT RAISE(ABORT, '".toList = [⟨.blank, [' ']⟩, ⟨.word, "BEGIN".toList⟩].flatMap Token.text
      ++ ' ' :: "SELECT RAISE(ABORT, '".toList := by decide
  obtain ⟨more, text⟩ : ∃ more, Like.untilNul (Check.triggerBody message)
      = [⟨.blank, [' ']⟩, ⟨.word, "BEGIN".toList⟩].flatMap Token.text ++ ' ' :: more := by
    refine ⟨"SELECT RAISE(ABORT, '".toList ++ Like.untilNul (escapeLiteral message ++ "'); END;"), ?_⟩
    unfold Check.triggerBody
    rw [String.append_assoc, untilNul_append (by decide), first]
    simp only [List.append_assoc, List.cons_append]
  have stand : Stand (' ' :: more) [⟨.blank, [' ']⟩, ⟨.word, "BEGIN".toList⟩] :=
    ⟨⟨_, _, rfl, by decide⟩, ends_cons rfl, ⟨_, _, rfl, by decide⟩, ends_cons rfl, trivial⟩
  unfold lexemes? at read
  rw [text, tokens_of_stand stand, List.cons_append, List.cons_append, List.nil_append, lexemesFrom, lexemesFrom_cons _ rfl] at read
  obtain ⟨⟨ls, s⟩, read, eq⟩ := Option.map_eq_some_iff.1 read
  obtain ⟨⟨ls', s'⟩, -, eq'⟩ := Option.map_eq_some_iff.1 read
  cases eq
  cases eq'
  rfl

/-- The violation that the triggers of a check look for is the negation of its formula, the fields read from the new body. -/
theorem violation?_of_formula? (formula : formula? fragment = some φ) (apart : numbersApart (tokens fragment.toList) = true)
    {e : Expr} (made : Check.violation? (resolve Check.newBody fragment) message = some e) {scope : Scope}
    (bare : ∀ name, scope none name = none) (body : scope (some "NEW") "data" = some ⟨.current, .data⟩) :
    e.resolve scope = some (.unary .not (φ.expr.ofBody (φ.fields.map FieldPath.jsonPath))) := by
  obtain ⟨alone, plain, terms, x, known, fields, read, resolved, -⟩ := formula?_eq_some formula
  obtain ⟨⟨tail, count⟩, tailRead, made⟩ := Option.bind_eq_some_iff.1 made
  obtain ⟨⟨ls, n⟩, allRead, made⟩ := Option.bind_eq_some_iff.1 made
  rw [lexemes?_negated alone plain known apart, tailRead] at allRead
  cases allRead
  rw [flatMap_extracted fun l mem => ne_param_of_terms? _ known mem, ← fields] at made
  obtain ⟨⟨e', after⟩, parsed, made⟩ := Option.bind_eq_some_iff.1 made
  obtain ⟨-, made⟩ := Option.ite_none_right_eq_some.1 made
  cases made
  cases parsed.symm.trans (expression_negated read (connective?_triggerBody tailRead))
  exact Option.bind_eq_some_iff.2 ⟨_, resolve_expand bare body x resolved, rfl⟩

/-- The negation of a formula, read from the new body, is as true as the formula is not. -/
theorem holds_not_ofBody (formula : formula? fragment = some φ) {read : Place → Value} {b : Body}
    (body : read ⟨.current, .data⟩ = .text b.text) :
    Expr.holds read [] (.unary .not (φ.expr.ofBody (φ.fields.map FieldPath.jsonPath))) = (φ.truth? b).map Truth.not := by
  obtain ⟨-, -, terms, x, -, -, -, -, closed⟩ := formula?_eq_some formula
  show (((φ.expr.ofBody (φ.fields.map FieldPath.jsonPath)).eval read []).bind fun v => some (Value.ofTruth v.truth.not)).map Value.truth
    = ((φ.expr.eval (fun _ => .null) (φ.fields.map b.extract)).map Value.truth).map Truth.not
  rw [eval_ofBody body φ.expr closed]
  cases φ.expr.eval (fun _ => .null) (φ.fields.map b.extract) with
  | none => rfl
  | some v =>
    show some (Value.truth (.ofTruth v.truth.not)) = some v.truth.not
    rw [Value.truth_ofTruth]

end Raw

end Dossier
