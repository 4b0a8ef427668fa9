import Dossier.Sql.Grammar

/-!
# Parameters that are written out

`Lexeme.expand` puts the extraction of a path from the new body of a row in the place of each parameter, and `Expr.expand`
does the same in an expression. The grammar reads the longer lexemes as the longer expression, and stops at the
parenthesis that closes them (`Grammar.expr_grow`): an extraction is an operand, and no lexeme that the grammar looks at
to go on stands at the beginning of one.
-/

namespace Dossier.Sql

open Text

/-- The lexemes of `json_extract(NEW.data, '…')`. -/
def extraction (path : String) : List Lexeme :=
  [.word "json_extract", .symbol "(", .word "NEW", .symbol ".", .word "data", .symbol ",", .string path, .symbol ")"]

/-- The new body of a row, in the condition of a trigger. -/
def newDocument : Expr := .name (some "NEW") "data" false

/-- The extraction of a path from it. -/
def extracted (path : String) : Expr := .binary .extract newDocument (.value (.text path))

variable (paths : List String)

/-- The lexeme, a parameter as the extraction of its path. -/
def Lexeme.expand : Lexeme → List Lexeme
  | .param i =>
    match paths[i]? with
    | some path => extraction path
    | none => [.param i]
  | l => [l]

/-- The expression with the extraction of its path in the place of each parameter. -/
def Expr.expand : Expr → Expr
  | .param i =>
    match paths[i]? with
    | some path => extracted path
    | none => .param i
  | .unary op x => .unary op x.expand
  | .binary op x y => .binary op x.expand y.expand
  | .ternary op x y z => .ternary op x.expand y.expand z.expand
  | e => e

/-- The expanded lexemes and the parenthesis that closes them. -/
def grow (after ls : List Lexeme) : List Lexeme := ls.flatMap (Lexeme.expand paths) ++ .symbol ")" :: after

variable {paths} {after ls rest : List Lexeme} {l : Lexeme}

@[simp] theorem grow_nil : grow paths after [] = .symbol ")" :: after := rfl

theorem grow_cons : grow paths after (l :: ls) = l.expand paths ++ grow paths after ls := by simp [grow]

@[simp] theorem grow_word (w : String) : grow paths after (.word w :: ls) = .word w :: grow paths after ls := rfl

@[simp] theorem grow_symbol (s : String) : grow paths after (.symbol s :: ls) = .symbol s :: grow paths after ls := rfl

@[simp] theorem grow_string (s : String) : grow paths after (.string s :: ls) = .string s :: grow paths after ls := rfl

@[simp] theorem grow_whole (n : Nat) : grow paths after (.whole n :: ls) = .whole n :: grow paths after ls := rfl

@[simp] theorem grow_real (x : Float) : grow paths after (.real x :: ls) = .real x :: grow paths after ls := rfl

@[simp] theorem grow_quoted (s : String) (isDouble : Bool) :
    grow paths after (.quoted s isDouble :: ls) = .quoted s isDouble :: grow paths after ls := rfl

/-- What stands in the place of a parameter is the extraction of a path, or the parameter. -/
theorem grow_param (paths : List String) (after ls : List Lexeme) (i : Nat) :
    (∃ path, paths[i]? = some path
      ∧ grow paths after (.param i :: ls) = extraction path ++ grow paths after ls)
    ∨ (paths[i]? = none ∧ grow paths after (.param i :: ls) = .param i :: grow paths after ls) := by
  rw [grow_cons, Lexeme.expand]
  cases paths[i]? with
  | some path => exact .inl ⟨path, rfl, rfl⟩
  | none => exact .inr ⟨rfl, rfl⟩

namespace Grammar

/-! ## What the grammar looks at -/

/-- The first word stays, and where there is none, only the name of the extraction may have come. -/
theorem headWord_grow (paths : List String) (after ls : List Lexeme) :
    (grow paths after ls).head?.bind word? = ls.head?.bind word?
    ∨ (ls.head?.bind word? = none ∧ (grow paths after ls).head?.bind word? = some "json_extract") := by
  cases ls with
  | nil => exact .inl rfl
  | cons l rest =>
    cases l with
    | param i =>
      rcases grow_param paths after rest i with ⟨path, -, eq⟩ | ⟨-, eq⟩
      · rw [eq]
        exact .inr ⟨rfl, show word? (.word "json_extract") = some "json_extract" by decide⟩
      · rw [eq]
        exact .inl rfl
    | _ => exact .inl rfl

theorem atWord_eq (w : String) (ls : List Lexeme) : atWord w ls = (ls.head?.bind word? == some w) := by
  cases ls <;> rfl

theorem atWord_grow {w : String} (ne : w ≠ "json_extract") : atWord w (grow paths after ls) = atWord w ls := by
  rw [atWord_eq, atWord_eq]
  rcases headWord_grow paths after ls with same | ⟨none_, extracts⟩
  · rw [same]
  · rw [none_, extracts]
    simpa using ne.symm

theorem drop_grow (paths : List String) (after : List Lexeme) {w : String} (h : atWord w ls = true) :
    (grow paths after ls).drop 1 = grow paths after (ls.drop 1) := by
  cases ls with
  | nil => simp [atWord] at h
  | cons l rest => cases l <;> first | rfl | simp [atWord, word?] at h

theorem takeWord_grow {w : String} (ne : w ≠ "json_extract") (h : takeWord w ls = some rest) :
    takeWord w (grow paths after ls) = some (grow paths after rest) := by
  unfold takeWord at h ⊢
  rw [atWord_grow ne]
  split at h
  · rename_i here
    rw [if_pos here, drop_grow _ _ here, Option.some.inj h]
  · cases h

theorem takeSymbol_grow {s : String} (h : takeSymbol s ls = some rest) :
    takeSymbol s (grow paths after ls) = some (grow paths after rest) := by
  unfold takeSymbol at h
  split at h
  · rw [grow_symbol, takeSymbol]
    split at h
    · rename_i same
      rw [if_pos same, Option.some.inj h]
    · cases h
  · cases h

/-- Two words in front are still there. -/
theorem atWords_grow {w w' : String} (ne : w ≠ "json_extract") (ne' : w' ≠ "json_extract") :
    (atWord w (grow paths after ls) && atWord w' ((grow paths after ls).drop 1)) = (atWord w ls && atWord w' (ls.drop 1)) := by
  rw [atWord_grow ne]
  cases here : atWord w ls with
  | false => rfl
  | true => rw [drop_grow _ _ here, atWord_grow ne']

theorem isForm_grow (ls : List Lexeme) : isForm (grow paths after ls)
    = ((isForm ls).1, (isForm ls).2.1, grow paths after (isForm ls).2.2) := by
  have rest : ∀ (negated : Bool) (ls : List Lexeme),
      (if (atWord "distinct" (grow paths after ls) && atWord "from" ((grow paths after ls).drop 1)) = true
        then (Connective.binary (.is !negated), 4, (grow paths after ls).drop 2)
        else (.binary (.is negated), 4, grow paths after ls))
      = (fun p : Connective × Nat × List Lexeme => (p.1, p.2.1, grow paths after p.2.2))
        (if (atWord "distinct" ls && atWord "from" (ls.drop 1)) = true
          then (.binary (.is !negated), 4, ls.drop 2) else (.binary (.is negated), 4, ls)) := by
    intro negated ls
    rw [atWords_grow (by decide) (by decide)]
    split
    · rename_i both
      obtain ⟨first, second⟩ := Bool.and_eq_true_iff.1 both
      have dropped := drop_grow paths after second
      rw [← drop_grow _ _ first, List.drop_drop, List.drop_drop] at dropped
      simp only [dropped]
    · rfl
  unfold isForm
  simp only
  rw [atWord_grow (by decide)]
  cases here : atWord "not" ls with
  | false => exact rest false ls
  | true =>
    simp only [if_true]
    rw [drop_grow _ _ here]
    exact rest true (ls.drop 1)

theorem negatedForm_grow (ls : List Lexeme) : negatedForm (grow paths after ls)
    = (negatedForm ls).map fun p => (p.1, p.2.1, grow paths after p.2.2) := by
  rcases headWord_grow paths after ls with same | ⟨none_, extracts⟩
  · have dropped : ∀ w, ls.head?.bind word? = some w → (grow paths after ls).drop 1 = grow paths after (ls.drop 1) :=
      fun w here => drop_grow _ _ (by rw [atWord_eq, here]; exact beq_self_eq_true _)
    unfold negatedForm
    rw [same]
    split <;> first | rfl | simp only [dropped _ ‹_›, Option.map_some]
  · unfold negatedForm
    rw [extracts, none_]
    rfl

/-- The operator in front is still there. -/
theorem connective?_grow (ls : List Lexeme) : connective? (grow paths after ls)
    = (connective? ls).map fun p => (p.1, p.2.1, grow paths after p.2.2) := by
  cases ls with
  | nil => rfl
  | cons l rest =>
    cases l with
    | param i =>
      rcases grow_param paths after rest i with ⟨path, -, eq⟩ | ⟨-, eq⟩
      · rw [eq]
        rfl
      · rw [eq]
        rfl
    | symbol s =>
      rw [grow_symbol, connective?, connective?]
      cases symbolOp? s <;> rfl
    | word w =>
      rw [grow_word, connective?, connective?]
      split <;> first | rfl | exact negatedForm_grow rest | exact congrArg some (isForm_grow rest)
    | _ => rfl

/-! ## What the grammar makes -/

theorem isFalse_expand (x : Expr) : isFalse (x.expand paths) = isFalse x := by
  cases x with
  | param i =>
    unfold Expr.expand
    split <;> rfl
  | _ => rfl

theorem expand_binaryForm (op : BinaryOp) (x y : Expr) :
    (binaryForm op x y).expand paths = binaryForm op (x.expand paths) (y.expand paths) := by
  unfold binaryForm
  rw [isFalse_expand, isFalse_expand]
  split <;> rfl

theorem expand_negateIf (negated : Bool) (x : Expr) : (negateIf negated x).expand paths = negateIf negated (x.expand paths) := by
  cases negated <;> rfl

theorem expand_memberForm (x : Expr) (items : List Expr) :
    (memberForm x items).expand paths = memberForm (x.expand paths) (items.map (Expr.expand paths)) := by
  unfold memberForm
  induction items with
  | nil => rfl
  | cons y rest ih => simp only [List.foldr_cons, List.map_cons, ← ih, Expr.expand]

theorem expand_coalesce (items : List Expr) : (coalesce items).expand paths = coalesce (items.map (Expr.expand paths)) := by
  induction items with
  | nil => rfl
  | cons x rest ih =>
    cases rest with
    | nil => rfl
    | cons y others =>
      rw [coalesce, Expr.expand, ih]
      · rfl
      · exact nofun

theorem expand_applied (f : String) (args : List Expr) :
    (applied f args).expand paths = applied f (args.map (Expr.expand paths)) := by
  unfold applied
  generalize foldCase f = g
  rcases args with _ | ⟨x, _ | ⟨y, _ | ⟨z, rest⟩⟩⟩
  · simp [Expr.expand]
  · simp only [List.map_cons, List.map_nil]
    split <;> simp_all [Expr.expand]
  · simp only [List.map_cons, List.map_nil]
    split <;> simp_all [Expr.expand, coalesce]
  · by_cases coalesces : g = "coalesce"
    · rw [coalesces]
      exact expand_coalesce _
    · simp only [List.map_cons]
      split <;> simp_all [Expr.expand]

theorem expand_call (f : String) (args : List Expr) : (call f args).expand paths = call f (args.map (Expr.expand paths)) := by
  unfold call
  rw [List.length_map]
  split
  · rfl
  · exact expand_applied f args

theorem expand_collated (name : String) (x : Expr) : (collated name x).expand paths = collated name (x.expand paths) := by
  unfold collated
  split <;> rfl

theorem minus_of_ne {x : Expr} (ne : ∀ v, x ≠ .value v) (ls : List Lexeme) : minus ls x = .unary .negate x := by
  unfold minus
  split
  · exact absurd rfl (ne _)
  · exact absurd rfl (ne _)
  · rfl

/-- A minus before a number belongs to it; what is written out for a parameter is no number. -/
theorem expand_minus (ls : List Lexeme) (x : Expr) :
    (minus ls x).expand paths = minus (grow paths after ls) (x.expand paths) := by
  cases x with
  | value v =>
    rcases ls with _ | ⟨l, rest⟩
    · rfl
    · cases l with
      | param i =>
        rcases grow_param paths after rest i with ⟨path, -, eq⟩ | ⟨-, eq⟩
        · rw [eq]
          rfl
        · rw [eq]
          rfl
      | whole n =>
        simp only [grow_whole, Expr.expand, minus]
        split <;> rfl
      | _ => rfl
  | param i =>
    have ne : ∀ v, (Expr.param i).expand paths ≠ .value v := by
      unfold Expr.expand
      split <;> simp [extracted]
    rw [minus_of_ne (by simp), minus_of_ne ne]
    rfl
  | _ =>
    rw [minus_of_ne (by simp), minus_of_ne (by simp [Expr.expand])]
    rfl

/-! ## What the grammar reads -/

/-- What the grammar reads with some fuel, it reads off the expanded lexemes with a little more. -/
structure Grown (paths : List String) (after : List Lexeme) (fuel : Nat) : Prop where
  expr : ∀ {k least ls x rest}, 8 ≤ k → Grammar.expr fuel least ls = some (x, rest) →
    Grammar.expr (fuel + k) least (grow paths after ls) = some (x.expand paths, grow paths after rest)
  operand : ∀ {k ls x rest}, 8 ≤ k → Grammar.operand fuel ls = some (x, rest) →
    Grammar.operand (fuel + k) (grow paths after ls) = some (x.expand paths, grow paths after rest)
  named : ∀ {k name isDouble ls x rest}, 8 ≤ k → Grammar.named fuel name isDouble ls = some (x, rest) →
    Grammar.named (fuel + k) name isDouble (grow paths after ls) = some (x.expand paths, grow paths after rest)
  list : ∀ {k ls xs rest}, 8 ≤ k → Grammar.list fuel ls = some (xs, rest) →
    Grammar.list (fuel + k) (grow paths after ls) = some (xs.map (Expr.expand paths), grow paths after rest)
  arms : ∀ {k base ls x rest}, 8 ≤ k → Grammar.arms fuel base ls = some (x, rest) →
    Grammar.arms (fuel + k) (base.map (Expr.expand paths)) (grow paths after ls)
      = some (x.expand paths, grow paths after rest)
  operators : ∀ {k least x ls y rest}, 8 ≤ k → Grammar.operators fuel least x ls = some (y, rest) →
    Grammar.operators (fuel + k) least (x.expand paths) (grow paths after ls)
      = some (y.expand paths, grow paths after rest)

variable {fuel k : Nat}

/-- An extraction is an operand. -/
theorem operand_extraction (path : String) (rest : List Lexeme) (enough : 9 ≤ fuel) :
    operand fuel (extraction path ++ rest) = some (extracted path, rest) := by
  obtain ⟨k, rfl⟩ := Nat.exists_eq_add_of_le' enough
  rfl

theorem Grown.expr_succ (h : Grown paths after fuel) (enough : 8 ≤ k) {least : Nat} {x : Expr}
    (made : Grammar.expr (fuel + 1) least ls = some (x, rest)) :
    Grammar.expr (fuel + 1 + k) least (grow paths after ls) = some (x.expand paths, grow paths after rest) := by
  rw [Nat.add_right_comm]
  rw [Grammar.expr] at made ⊢
  obtain ⟨⟨y, mid⟩, first, made⟩ := Option.bind_eq_some_iff.1 made
  rw [h.operand enough first]
  exact h.operators enough made

theorem Grown.list_succ (h : Grown paths after fuel) (enough : 8 ≤ k) {xs : List Expr}
    (made : Grammar.list (fuel + 1) ls = some (xs, rest)) :
    Grammar.list (fuel + 1 + k) (grow paths after ls) = some (xs.map (Expr.expand paths), grow paths after rest) := by
  rw [Nat.add_right_comm]
  rw [Grammar.list] at made ⊢
  obtain ⟨⟨y, mid⟩, first, made⟩ := Option.bind_eq_some_iff.1 made
  rw [h.expr enough first]
  simp only at made
  split at made
  · cases made
    rfl
  · obtain ⟨⟨others, last⟩, later, made⟩ := Option.bind_eq_some_iff.1 made
    cases made
    simp [h.list enough later]
  · cases made

/-- No list begins with the parenthesis that closes it. -/
theorem list_close (fuel : Nat) (ls : List Lexeme) : Grammar.list fuel (.symbol ")" :: ls) = none := by
  rcases fuel with _ | _ | _ | fuel <;> rfl

/-- A name with a list of arguments is a call. -/
theorem named_call {name : String} {isDouble : Bool} {args : List Expr} (listed : Grammar.list fuel ls = some (args, rest)) :
    Grammar.named (fuel + 1) name isDouble (.symbol "(" :: ls) = some (call name args, rest) := by
  rw [Grammar.named.eq_def]
  simp only
  split
  · rename_i same
    rw [(List.cons.inj same).2, list_close] at listed
    cases listed
  · rename_i others same
    obtain rfl := (List.cons.inj same).2
    rw [listed]
    rfl
  all_goals simp_all

/-- A name that nothing belongs to stands for itself. -/
theorem named_alone {name : String} {isDouble : Bool} (apart : ∀ s rest, ls = .symbol s :: rest → s ≠ "(" ∧ s ≠ ".") :
    Grammar.named (fuel + 1) name isDouble ls = some (.name none name isDouble, ls) := by
  rw [Grammar.named.eq_def]
  simp only
  split
  · exact absurd rfl (apart _ _ rfl).1
  · exact absurd rfl (apart _ _ rfl).1
  · exact absurd rfl (apart _ _ rfl).2
  · exact absurd rfl (apart _ _ rfl).2
  · exact absurd rfl (apart _ _ rfl).2
  · rfl

theorem Grown.named_succ (h : Grown paths after fuel) (enough : 8 ≤ k) {name : String} {isDouble : Bool} {x : Expr}
    (made : Grammar.named (fuel + 1) name isDouble ls = some (x, rest)) :
    Grammar.named (fuel + 1 + k) name isDouble (grow paths after ls) = some (x.expand paths, grow paths after rest) := by
  rw [Nat.add_right_comm]
  rw [Grammar.named.eq_def] at made
  simp only at made
  split at made
  · cases made
    rw [grow_symbol, grow_symbol, expand_call]
    rfl
  · obtain ⟨⟨args, last⟩, listed, made⟩ := Option.bind_eq_some_iff.1 made
    cases made
    rw [grow_symbol, named_call (h.list enough listed), expand_call]
  · cases made
    rfl
  · cases made
    rfl
  · cases made
  · rename_i others noCall noArgs noColumn noQuoted noPoint
    cases made
    refine named_alone fun s more eq => ?_
    rcases ls with _ | ⟨l, rest⟩
    · cases eq
      decide
    · cases l with
      | symbol t =>
        cases eq
        exact ⟨fun same => noArgs _ (by rw [same]), fun same => noPoint _ (by rw [same])⟩
      | param i =>
        rcases grow_param paths after rest i with ⟨path, -, eq'⟩ | ⟨-, eq'⟩
        · rw [eq'] at eq
          cases eq
        · rw [eq'] at eq
          cases eq
      | _ => cases eq

theorem Grown.arms_succ (h : Grown paths after fuel) (enough : 8 ≤ k) {base : Option Expr} {x : Expr}
    (made : Grammar.arms (fuel + 1) base ls = some (x, rest)) :
    Grammar.arms (fuel + 1 + k) (base.map (Expr.expand paths)) (grow paths after ls)
      = some (x.expand paths, grow paths after rest) := by
  rw [Nat.add_right_comm]
  rw [Grammar.arms] at made ⊢
  obtain ⟨first, when_, made⟩ := Option.bind_eq_some_iff.1 made
  obtain ⟨⟨test, second⟩, tested, made⟩ := Option.bind_eq_some_iff.1 made
  obtain ⟨third, then_, made⟩ := Option.bind_eq_some_iff.1 made
  obtain ⟨⟨result, fourth⟩, resulted, made⟩ := Option.bind_eq_some_iff.1 made
  simp only [takeWord_grow (by decide) when_, h.expr enough tested, takeWord_grow (by decide) then_, h.expr enough resulted,
    atWord_grow (w := "when") (by decide), atWord_grow (w := "else") (by decide), Option.bind_eq_bind,
    Option.bind_some] at made ⊢
  split at made
  · rename_i another
    obtain ⟨⟨other, last⟩, later, made⟩ := Option.bind_eq_some_iff.1 made
    cases made
    rw [if_pos another, h.arms enough later]
    cases base <;> rfl
  · rename_i none_
    rw [if_neg none_]
    split at made
    · rename_i other
      obtain ⟨⟨other, last⟩, otherwise_, made⟩ := Option.bind_eq_some_iff.1 made
      obtain ⟨closed, end_, made⟩ := Option.bind_eq_some_iff.1 made
      cases made
      rw [if_pos ‹_›, drop_grow _ _ ‹_›, h.expr enough otherwise_]
      simp only [Option.bind_some, takeWord_grow (by decide) end_]
      cases base <;> rfl
    · obtain ⟨closed, end_, made⟩ := Option.bind_eq_some_iff.1 made
      cases made
      rw [if_neg ‹_›, takeWord_grow (by decide) end_]
      cases base <;> rfl

theorem Grown.operators_succ (h : Grown paths after fuel) (enough : 8 ≤ k) {least : Nat} {x y : Expr}
    (made : Grammar.operators (fuel + 1) least x ls = some (y, rest)) :
    Grammar.operators (fuel + 1 + k) least (x.expand paths) (grow paths after ls)
      = some (y.expand paths, grow paths after rest) := by
  rw [Nat.add_right_comm]
  rw [Grammar.operators] at made ⊢
  rw [connective?_grow]
  cases looked : connective? ls with
  | none =>
    rw [looked] at made
    cases made
    rfl
  | some p =>
    obtain ⟨c, strength, next⟩ := p
    rw [looked] at made
    simp only [Option.map_some] at made ⊢
    split at made
    · rename_i weak
      cases made
      rw [if_pos weak]
    · rename_i strong
      rw [if_neg strong]
      cases c with
      | binary op =>
        obtain ⟨⟨z, last⟩, right, made⟩ := Option.bind_eq_some_iff.1 made
        have more := h.operators enough made
        rw [expand_binaryForm] at more
        simp [h.expr enough right, more]
      | isNull => exact h.operators enough made
      | notNull => exact h.operators enough made
      | like negated =>
        obtain ⟨⟨pattern, last⟩, right, made⟩ := Option.bind_eq_some_iff.1 made
        simp only [h.expr enough right, atWord_grow (w := "escape") (by decide), Option.bind_eq_bind, Option.bind_some]
          at made ⊢
        split at made
        · rename_i escaped
          obtain ⟨⟨escape, last⟩, third, made⟩ := Option.bind_eq_some_iff.1 made
          have more := h.operators enough made
          rw [expand_negateIf] at more
          rw [if_pos escaped, drop_grow _ _ escaped, h.expr enough third]
          exact more
        · rename_i plain
          have more := h.operators enough made
          rw [expand_negateIf] at more
          rw [if_neg plain]
          exact more
      | between negated =>
        obtain ⟨⟨low, mid⟩, first, made⟩ := Option.bind_eq_some_iff.1 made
        obtain ⟨upper, and_, made⟩ := Option.bind_eq_some_iff.1 made
        obtain ⟨⟨high, last⟩, second, made⟩ := Option.bind_eq_some_iff.1 made
        have more := h.operators enough made
        rw [expand_negateIf] at more
        simp only [h.expr enough first, takeWord_grow (by decide) and_, h.expr enough second, Option.bind_eq_bind,
          Option.bind_some]
        exact more
      | member negated =>
        obtain ⟨inner, opened, made⟩ := Option.bind_eq_some_iff.1 made
        simp only [takeSymbol_grow opened, Option.bind_eq_bind, Option.bind_some] at made ⊢
        split at made
        · have more := h.operators enough made
          rw [expand_negateIf, expand_memberForm] at more
          exact more
        · obtain ⟨⟨items, last⟩, listed, made⟩ := Option.bind_eq_some_iff.1 made
          have listed := h.list enough listed
          have more := h.operators enough made
          rw [expand_negateIf, expand_memberForm] at more
          split
          · rename_i closed
            rw [closed, list_close] at listed
            cases listed
          · rw [listed]
            exact more
      | collate =>
        simp only at made ⊢
        split at made
        · have more := h.operators enough made
          rwa [expand_collated] at more
        · have more := h.operators enough made
          rwa [expand_collated] at more
        · cases made
      | unsupported =>
        obtain ⟨⟨z, last⟩, right, made⟩ := Option.bind_eq_some_iff.1 made
        simp [h.expr enough right]
        exact h.operators enough made

section
variable {w : String}

theorem operand_not (h : foldCase w = "not") :
    Grammar.operand (fuel + 1) (.word w :: ls) = (Grammar.expr fuel 3 ls).bind fun p => some (.unary .not p.1, p.2) := by
  rw [Grammar.operand.eq_def]
  simp only [h]
  rfl

theorem operand_null (h : foldCase w = "null") : Grammar.operand (fuel + 1) (.word w :: ls) = some (.value .null, ls) := by
  rw [Grammar.operand.eq_def]
  simp only [h]

theorem operand_case (h : foldCase w = "case") : Grammar.operand (fuel + 1) (.word w :: ls) =
    if atWord "when" ls then Grammar.arms fuel none ls
    else (Grammar.expr fuel 0 ls).bind fun p => Grammar.arms fuel (some p.1) p.2 := by
  rw [Grammar.operand.eq_def]
  simp only [h]
  rfl

theorem operand_cast (h : foldCase w = "cast") : Grammar.operand (fuel + 1) (.word w :: ls) =
    (takeSymbol "(" ls).bind fun inner => (Grammar.expr fuel 0 inner).bind fun p => (takeWord "as" p.2).bind fun type =>
      match type with
      | .word type :: rest => (castType? type).bind fun t => (takeSymbol ")" rest).bind fun rest =>
          some (.unary (.cast t) p.1, rest)
      | _ => none := by
  rw [Grammar.operand.eq_def]
  simp only [h]
  rfl

theorem operand_name (not_ : foldCase w ≠ "not") (null_ : foldCase w ≠ "null") (case_ : foldCase w ≠ "case")
    (cast_ : foldCase w ≠ "cast") : Grammar.operand (fuel + 1) (.word w :: ls) =
      if reserved.contains (foldCase w) then none else Grammar.named fuel w false ls := by
  rw [Grammar.operand.eq_def]
  simp only

end

theorem Grown.operand_succ (h : Grown paths after fuel) (enough : 8 ≤ k) {x : Expr}
    (made : Grammar.operand (fuel + 1) ls = some (x, rest)) :
    Grammar.operand (fuel + 1 + k) (grow paths after ls) = some (x.expand paths, grow paths after rest) := by
  rw [Nat.add_right_comm]
  rcases ls with _ | ⟨l, others⟩
  · cases made
  cases l with
  | string | whole | real =>
    cases made
    rfl
  | param i =>
    cases made
    rcases grow_param paths after rest i with ⟨path, found, eq⟩ | ⟨none_, eq⟩
    · rw [eq, operand_extraction path _ (by omega), Expr.expand, found]
    · rw [eq, Expr.expand, none_]
      rfl
  | quoted text isDouble => exact h.named enough made
  | symbol s =>
    rw [grow_symbol]
    by_cases opens : s = "("
    · subst opens
      obtain ⟨⟨y, mid⟩, inner, made⟩ := Option.bind_eq_some_iff.1 made
      obtain ⟨last, closed, made⟩ := Option.bind_eq_some_iff.1 made
      cases made
      show (Grammar.expr (fuel + k) 0 (grow paths after others)).bind _ = _
      simp [h.expr enough inner, takeSymbol_grow closed]
    · by_cases negates : s = "-"
      · subst negates
        obtain ⟨⟨y, last⟩, inner, made⟩ := Option.bind_eq_some_iff.1 made
        cases made
        show (Grammar.expr (fuel + k) 12 (grow paths after others)).bind _ = _
        rw [h.expr enough inner, expand_minus]
        rfl
      · by_cases keeps : s = "+"
        · subst keeps
          obtain ⟨⟨y, last⟩, inner, made⟩ := Option.bind_eq_some_iff.1 made
          cases made
          show (Grammar.expr (fuel + k) 12 (grow paths after others)).bind _ = _
          rw [h.expr enough inner]
          rfl
        · rw [Grammar.operand.eq_def] at made
          simp at made
  | word w =>
    rw [grow_word]
    by_cases not_ : foldCase w = "not"
    · rw [operand_not not_] at made ⊢
      obtain ⟨⟨y, last⟩, inner, made⟩ := Option.bind_eq_some_iff.1 made
      cases made
      rw [h.expr enough inner]
      rfl
    by_cases null_ : foldCase w = "null"
    · rw [operand_null null_] at made ⊢
      cases made
      rfl
    by_cases case_ : foldCase w = "case"
    · rw [operand_case case_] at made ⊢
      rw [atWord_grow (by decide)]
      split at made
      · rw [if_pos ‹_›]
        exact h.arms enough made
      · obtain ⟨⟨base, last⟩, first, made⟩ := Option.bind_eq_some_iff.1 made
        rw [if_neg ‹_›, h.expr enough first]
        exact h.arms enough made
    by_cases cast_ : foldCase w = "cast"
    · rw [operand_cast cast_] at made ⊢
      obtain ⟨inner, opened, made⟩ := Option.bind_eq_some_iff.1 made
      obtain ⟨⟨y, mid⟩, read, made⟩ := Option.bind_eq_some_iff.1 made
      obtain ⟨type, as_, made⟩ := Option.bind_eq_some_iff.1 made
      rw [takeSymbol_grow opened, Option.bind_some, h.expr enough read, Option.bind_some, takeWord_grow (by decide) as_,
        Option.bind_some]
      split at made
      · obtain ⟨t, cast, made⟩ := Option.bind_eq_some_iff.1 made
        obtain ⟨last, closed, made⟩ := Option.bind_eq_some_iff.1 made
        cases made
        rw [grow_word]
        simp only [cast, takeSymbol_grow closed, Option.bind_some]
        rfl
      · cases made
    rw [operand_name not_ null_ case_ cast_] at made ⊢
    split at made
    · cases made
    · rw [if_neg ‹_›]
      exact h.named enough made

/-- Whatever the fuel is, the grammar reads expanded lexemes as it reads the others. -/
theorem grown (paths : List String) (after : List Lexeme) (fuel : Nat) : Grown paths after fuel := by
  induction fuel with
  | zero =>
    refine ⟨?_, ?_, ?_, ?_, ?_, ?_⟩
    all_goals
      intros
      simp_all [Grammar.expr, Grammar.operand, Grammar.named, Grammar.list, Grammar.arms, Grammar.operators]
  | succ fuel ih =>
    exact ⟨fun enough => ih.expr_succ enough, fun enough => ih.operand_succ enough, fun enough => ih.named_succ enough,
      fun enough => ih.list_succ enough, fun enough => ih.arms_succ enough, fun enough => ih.operators_succ enough⟩

/-- The grammar reads an expression off the expanded lexemes and stops at the parenthesis that closes them. -/
theorem expr_grow {x : Expr} (read : expression ls = some (x, [])) (k : Nat) (enough : 8 ≤ k) :
    expr (4 * ls.length + 4 + k) 0 (grow paths after ls) = some (x.expand paths, .symbol ")" :: after) :=
  (grown paths after _).expr enough read

end Grammar

end Dossier.Sql
