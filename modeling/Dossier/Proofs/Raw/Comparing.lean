import Dossier.Proofs.Raw.Keeping
import Dossier.Proofs.Statement.Listing

/-!
# A field compared with a value

A raw predicate that compares a field with one value, with a `WHERE` or without it, is read as the comparison of what the body
holds at the path (`selection?_of_compares`), whatever order and page follow.
-/

namespace Dossier

open Text Sql

namespace Raw

variable {field : String} {path : FieldPath} {cs : List Char}

/-- A path that the rewriting takes for a field: letters, digits, `_` and points, with a letter or `_` in front, no keyword, not
the identifier, and no column in front. -/
structure IsFieldName (field : String) (path : FieldPath) : Prop where
  parsed : FieldPath.parse field = .ok path
  first : field.toList.head?.any isWordStart = true
  plain : '-' ∉ field.toList
  keyword : keywords.contains (foldCase field) = false
  other : field ≠ "_id"
  column : columnHeads.contains (foldCase path.head) = false

/-- The comparison of a field with one value, with a `WHERE` in front or without it. -/
inductive Compares (field : String) : String → Prop
  | bare : Compares field (field ++ " = ?")
  | «where» (word blanks : String) (folded : foldCase word = "where") (some_ : blanks.toList ≠ [])
    (blank : blanks.toList.all isBlank = true) : Compares field (word ++ blanks ++ (field ++ " = ?"))

namespace IsFieldName

variable (h : IsFieldName field path)

include h

theorem text_eq : path.text = field := (FieldPath.parse_eq_ok_iff.1 h.parsed).1

theorem exists_cons : ∃ c more, field.toList = c :: more ∧ isWordStart c = true ∧ more.all isWordChar = true := by
  have chars : ∀ d ∈ field.toList, isWordChar d = true := by
    intro d mem
    have inside := h.text_eq ▸ mem
    rcases mem_joinWith inside with point | ⟨s, segment, inside⟩
    · obtain rfl := List.mem_singleton.1 point
      decide
    · have char := List.all_eq_true.1 (path.plain s segment).2 d inside
      have other : d ≠ '-' := by
        rintro rfl
        exact h.plain mem
      simp only [isSegmentChar, Bool.or_eq_true, beq_iff_eq, other, or_false] at char
      simpa [isWordChar] using char.elim (fun letter => .inl (.inl letter)) fun line => .inl (.inr line)
  have first := h.first
  cases text : field.toList with
  | nil => simp [text] at first
  | cons c more =>
    rw [text] at first chars
    exact ⟨c, more, rfl, by simpa using first, List.all_eq_true.2 fun d mem => chars d (List.mem_cons_of_mem c mem)⟩

omit h in
theorem intercalate_cons (head : List Char) (members : List (List Char)) :
    List.intercalate ['.'] (head :: members) = (⟨head, members⟩ : BareName).text := by
  induction members generalizing head with
  | nil => simp [BareName.text, memberTokens]
  | cons w members ih =>
    rw [List.intercalate_cons_cons, ih w]
    simp [BareName.text, memberTokens]

theorem wordHead_eq : String.ofList (wordHead (foldCase field).toList) = foldCase path.head := by
  obtain ⟨s, rest, segments⟩ := List.exists_cons_of_ne_nil path.nonempty
  have head : path.head = s := by simp [FieldPath.head, segments]
  have text : field.toList = (⟨s.toList, rest.map String.toList⟩ : BareName).text := by
    rw [← h.text_eq, FieldPath.text, joinWith, String.toList_ofList, segments, List.map_cons]
    exact intercalate_cons ..
  have plain : '.' ∉ s.toList := (path.plain s (segments ▸ List.mem_cons_self)).point_not_mem
  have word := wordHead_text (n := ⟨s.toList, rest.map String.toList⟩) plain
  rwa [← text, String.ofList_toList, String.ofList_toList, ← head] at word

/-- The name becomes the extraction of its path. -/
theorem resolveWord_eq (source : String) : resolveWord source false field.toList = (extractText source path).toList := by
  unfold resolveWord
  simp only [String.ofList_toList, h.keyword, h.wordHead_eq, h.column, h.parsed, h.other, Bool.or_false, Bool.false_eq_true, if_false]

/-- A filter takes the name for the path. -/
theorem fieldRef_eq : FieldRef.parse field = .ok (.body path) := by
  have system : FieldRef.systemColumn? field = none := by
    have columns : ∀ name ∈ ["id", "created_at", "updated_at"],
        columnHeads.contains (String.ofList (wordHead (foldCase name).toList)) = true := by decide
    have apart : ∀ name ∈ ["id", "created_at", "updated_at"], field ≠ name := by
      rintro _ mem rfl
      have column := columns field mem
      rw [h.wordHead_eq, h.column] at column
      cases column
    simp only [List.forall_mem_cons] at apart
    simp [FieldRef.systemColumn?, idFields, h.other, apart.1, apart.2.1, apart.2.2.1]
  rw [FieldRef.parse, system, h.parsed]
  rfl

end IsFieldName

/-! ## The clause -/

/-- What has a character not in it occurs before the character or after it. -/
theorem infix_append_cons_iff {α : Type} {part before after : List α} {d : α} (plain : d ∉ part) :
    part <:+: before ++ d :: after ↔ part <:+: before ∨ part <:+: after := by
  constructor
  · rintro ⟨u, v, whole⟩
    rcases List.append_eq_append_iff.1 whole with ⟨w, rfl, -⟩ | ⟨w, front, back⟩
    · exact .inl ⟨u, w, rfl⟩
    · cases w with
      | nil => exact .inl ⟨u, [], by simpa using front⟩
      | cons e w =>
        obtain ⟨rfl, rfl⟩ := List.cons.inj back
        rcases List.append_eq_append_iff.1 front with ⟨x, -, rfl⟩ | ⟨x, -, later⟩
        · exact absurd (List.mem_append_right x List.mem_cons_self) plain
        · cases x with
          | nil =>
            obtain rfl : _ = part := later
            exact absurd List.mem_cons_self plain
          | cons f x =>
            obtain ⟨-, rfl⟩ := List.cons.inj later
            exact .inr ⟨x, v, rfl⟩
  · rintro (here | there)
    · exact here.trans (List.prefix_append _ _).isInfix
    · exact there.trans ((List.suffix_cons d after).trans (List.suffix_append _ _)).isInfix

theorem infix_cons_iff_of_not_mem {α : Type} {part after : List α} {d : α} (plain : d ∉ part) :
    part <:+: d :: after ↔ part <:+: after := by
  have split : part <:+: [] ++ d :: after ↔ part <:+: [] ∨ part <:+: after := infix_append_cons_iff plain
  refine split.trans (or_iff_right_of_imp ?_)
  intro empty
  rw [List.infix_nil.1 empty]
  exact List.nil_infix

theorem not_extracts_append (plain : ¬ Extracts cs) : ¬ Extracts (cs ++ " = ?".toList) := fun extracts => by
  unfold Extracts at extracts
  rw [List.map_append, show " = ?".toList.map Char.toLower = ' ' :: "= ?".toList by decide] at extracts
  rcases (infix_append_cons_iff (by decide)).1 extracts with here | there
  · exact plain here
  · exact absurd ((occursIn_iff _).2 there) (by decide)

/-- A word is no `WHERE`, if it is not that. -/
theorem stripWhere_of_word {rest : List Char} (all : cs.all isWordChar = true) (other : foldCase (String.ofList cs) ≠ "where") :
    stripWhere (cs ++ ' ' :: rest) = cs ++ ' ' :: rest := by
  unfold stripWhere
  simp only
  split
  · rename_i folded
    rcases Nat.lt_trichotomy cs.length 5 with less | equal | more
    · -- the blank after the word is one of the first five characters
      obtain ⟨k, length⟩ := Nat.exists_eq_add_of_lt less
      have blank : ' ' ∈ (foldCase (String.ofList ((cs ++ ' ' :: rest).take 5))).toList := by
        rw [List.take_append, show 5 - cs.length = k + 1 by omega, List.take_succ_cons, foldCase, String.toList_ofList,
          String.toList_ofList, List.map_append]
        exact List.mem_append_right _ List.mem_cons_self
      rw [folded] at blank
      exact absurd blank (by decide)
    · rw [List.take_append_of_le_length (by omega), ← equal, List.take_length] at folded
      exact absurd folded other
    · obtain ⟨d, after, drop⟩ := List.exists_cons_of_ne_nil (show cs.drop 5 ≠ [] by
        intro empty
        have := List.drop_eq_nil_iff.1 empty
        omega)
      have word : isWordChar d = true := List.all_eq_true.1 all d (List.mem_of_mem_drop (drop ▸ List.mem_cons_self))
      have blank : isBlank d = false := by
        simp only [isWordChar, Bool.or_eq_true, beq_iff_eq] at word
        rcases word with name | rfl
        · exact not_isBlank_of_isNameChar (by simpa [isNameChar] using name)
        · decide
      have parenthesis : d ≠ '(' := by
        rintro rfl
        exact absurd word (by decide)
      rw [List.drop_append_of_le_length (by omega), drop]
      simp [blank, parenthesis]
  · rfl

theorem isTrimmed_comparison (h : IsFieldName field path) : IsTrimmed (field ++ " = ?").toList := by
  obtain ⟨c, more, text, first, -⟩ := h.exists_cons
  rw [String.toList_append, text]
  refine ⟨by simp, ends_cons (not_isBlank_of_isNameChar (isNameChar_of_isWordStart first)), ?_⟩
  rw [List.reverse_append]
  exact ends_cons (by decide)

/-- A `WHERE` begins with no blank. -/
theorem ends_where {word : String} (folded : foldCase word = "where") (rest : List Char) : Ends isBlank (word.toList ++ rest) := by
  have letters : word.toList.map Char.toLower = "where".toList := by rw [← folded, foldCase, String.toList_ofList]
  cases text : word.toList with
  | nil => rw [text] at letters; cases letters
  | cons c more =>
    rw [text] at letters
    have first : c.toLower = 'w' := (List.cons.inj letters).1
    refine ends_cons (Bool.eq_false_iff.2 fun blank => ?_)
    unfold Char.toLower at first
    split at first
    · rename_i upper
      have := UInt32.le_iff_toNat_le.1 upper.1
      have := UInt32.le_iff_toNat_le.1 upper.2
      have : 'A'.val.toNat = 65 ∧ 'Z'.val.toNat = 90 ∧ c.val.toNat = c.toNat := ⟨rfl, rfl, rfl⟩
      simp only [isBlank, Bool.or_eq_true, Bool.and_eq_true, decide_eq_true_eq] at blank
      omega
    · rw [first] at blank
      exact absurd blank (by decide)

/-- Without the `WHERE` and without blanks at its ends the predicate is the comparison. -/
theorem stripWhere_of_compares (h : IsFieldName field path) {sql : String} (spelled : Compares field sql) :
    (trim sql).toList ≠ [] ∧ stripWhere (trim sql).toList = (field ++ " = ?").toList := by
  have body := isTrimmed_comparison h
  obtain ⟨c, more, text, first, all⟩ := h.exists_cons
  cases spelled with
  | bare =>
    rw [body.trim_eq, String.toList_append]
    refine ⟨by simp [text], stripWhere_of_word ?_ fun folded => ?_⟩
    · rw [text, List.all_cons, isWordChar_of_isNameChar (isNameChar_of_isWordStart first), all]
      rfl
    · have keyword := h.keyword
      rw [String.ofList_toList] at folded
      rw [folded] at keyword
      exact absurd keyword (by decide)
  | «where» word blanks folded some_ blank =>
    have trimmed : IsTrimmed (word ++ blanks ++ (field ++ " = ?")).toList := by
      rw [String.toList_append, String.toList_append, List.append_assoc]
      refine ⟨fun empty => body.some_ (by simp_all), ends_where folded _, ?_⟩
      rw [List.reverse_append, List.reverse_append, List.append_assoc]
      obtain ⟨d, others, last⟩ := List.exists_cons_of_ne_nil (show (field ++ " = ?").toList.reverse ≠ [] by simp)
      rw [last]
      exact ends_cons (body.last d (by rw [last]; rfl))
    rw [trimmed.trim_eq]
    refine ⟨trimmed.some_, ?_⟩
    rw [String.toList_append, String.toList_append, List.append_assoc]
    exact body.stripWhere_where folded some_ blank

theorem whereText_of_compares (h : IsFieldName field path) (plain : ¬ Extracts field.toList) {p : RawPredicate}
    (spelled : Compares field p.sql) : p.whereText = " WHERE " ++ extractText bodyColumn path ++ " = ?" := by
  obtain ⟨some_, strip⟩ := stripWhere_of_compares h spelled
  obtain ⟨c, more, text, first, all⟩ := h.exists_cons
  have resolved : resolve bodyColumn (field ++ " = ?") = extractText bodyColumn path ++ " = ?" := by
    refine String.toList_injective ?_
    have rest : rewritten bodyColumn " = ?".toList = " = ?".toList := by
      have ends : Ends isNameChar [] := nofun
      have mark : rewritten bodyColumn ('?' :: ([] ++ [])) = _ := rewritten_placeholder (by decide) rfl ends
      have others : rewritten bodyColumn (" = ".toList ++ ['?']) = _ := rewritten_others (by decide)
      rw [show " = ?".toList = " = ".toList ++ ['?'] by decide, others]
      exact congrArg (" = ".toList ++ ·) (mark.trans (by simp))
    have word : rewritten bodyColumn (c :: (more ++ " = ?".toList)) = _ := rewritten_word first all (ends_cons (by decide))
    rw [← List.cons_append, ← text, show opensCall " = ?".toList = false by decide, h.resolveWord_eq, rest] at word
    rw [toList_resolve (by rw [String.toList_append]; exact not_extracts_append plain), String.toList_append, word, String.toList_append]
  rw [RawPredicate.whereText, strip, String.ofList_toList, resolved, if_neg (by simpa using some_), String.append_assoc]

/-! ## The reading -/

/-- The tokens of `WHERE json_extract(data, '…') =` and of the blanks around them. -/
def comparisonTokens (path : FieldPath) : List Token :=
  [.space, ⟨.word, "WHERE".toList⟩, .space] ++ (extractionTokens bodyColumn path.jsonPath ++ [.space, ⟨.symbol, ['=']⟩, .space])

/-- The lexemes of `json_extract(data, '…') = ?`. -/
def comparison (path : FieldPath) : List Lexeme :=
  [.word "json_extract", .symbol "(", .word "data", .symbol ",", .string path.jsonPath, .symbol ")", .symbol "=", .param 0]

theorem isConstant_comparison (path : FieldPath) : (comparisonTokens path).all Token.isConstant = true := by
  rw [comparisonTokens, List.all_append, List.all_append, isConstant_extraction]
  decide

theorem constants_comparison (path : FieldPath) :
    constants (comparisonTokens path) ++ [.param 0] = .word "WHERE" :: comparison path := by
  rw [comparisonTokens, extractionTokens, tokens_bodyColumn.1]
  simp only [List.cons_append, List.nil_append, constants, List.filterMap_cons, Token.space, lexeme?_literal, if_true]
  rfl

theorem tokens_comparison (path : FieldPath) (more : List Char) :
    tokens ((" WHERE " ++ extractText bodyColumn path ++ " = ?").toList ++ ' ' :: more)
      = comparisonTokens path ++ ⟨.variable, ['?']⟩ :: tokens (' ' :: more) := by
  have opening : Stand ((extractText bodyColumn path).toList ++ (" = ".toList ++ '?' :: ' ' :: more))
      [.space, ⟨.word, "WHERE".toList⟩, .space] := by
    rw [extractText_eq, String.append_assoc, String.append_assoc, String.toList_append]
    exact stand_space (ends_cons (by decide)) ⟨⟨_, _, rfl, by decide⟩, ends_cons (by decide), stand_space (ends_cons (by decide)) trivial⟩
  have closing : Stand ('?' :: ' ' :: more) [.space, ⟨.symbol, ['=']⟩, .space] :=
    stand_space (ends_cons (by decide)) ⟨⟨_, _, rfl, by decide⟩, ends_cons (by decide), stand_space (ends_cons (by decide)) trivial⟩
  have mark : (⟨.variable, ['?']⟩ : Token).Stands (' ' :: more) := ⟨'?', [], rfl, by rw [extent_question]; rfl⟩
  have text : (" WHERE " ++ extractText bodyColumn path ++ " = ?").toList ++ ' ' :: more
      = [Token.space, ⟨.word, "WHERE".toList⟩, .space].flatMap Token.text
        ++ ((extractText bodyColumn path).toList ++ (" = ".toList ++ '?' :: ' ' :: more)) := by
    simp [String.toList_append, Token.space]
  have equals : tokens (" = ".toList ++ '?' :: ' ' :: more) = [.space, ⟨.symbol, ['=']⟩, .space] ++ tokens ('?' :: ' ' :: more) :=
    tokens_of_stand closing
  have last : tokens ('?' :: ' ' :: more) = ⟨.variable, ['?']⟩ :: tokens (' ' :: more) := tokens_of_stands mark
  rw [text, tokens_of_stand opening, tokens_extractText tokens_bodyColumn.2, equals, last, comparisonTokens, List.append_assoc,
    List.append_assoc]

/-- The engine reads the comparison, and then order and page. -/
theorem lexemes?_comparison (path : FieldPath) (l : Listing) (r : Resolver) :
    lexemes? (" WHERE " ++ extractText bodyColumn path ++ " = ?" ++ l.text r)
      = some (.word "WHERE" :: (comparison path ++ l.lexemes r), 1) := by
  obtain ⟨more, tail⟩ : ∃ more, Like.untilNul (l.text r) = ' ' :: more := ⟨_, l.untilNul_text r⟩
  have plain : '\x00' ∉ (" WHERE " ++ extractText bodyColumn path ++ " = ?").toList := by
    simp [extractText_eq, FieldPath.literal, bodyColumn, String.toList_append, nul_not_mem_jsonPath path]
  have later := l.lexemesFrom_text r ⟨1, []⟩
  rw [tail] at later
  have mark : lexemesFrom .start (⟨.variable, ['?']⟩ :: tokens (' ' :: more)) = some (.param 0 :: l.lexemes r, ⟨1, []⟩) := by
    have room : 0 < limits.values := by decide
    rw [lexemesFrom]
    simp [Numbering.assign, Numbering.start, later, room]
  unfold lexemes?
  rw [untilNul_append plain, tail, tokens_comparison, lexemesFrom_constants (isConstant_comparison path), mark]
  have meaning := congrArg (· ++ l.lexemes r) (constants_comparison path)
  simp only [List.append_assoc, List.cons_append, List.nil_append] at meaning
  simp [meaning]

/-- The comparison of what a source holds at a path with the first value. -/
def compared (source : Expr) (path : FieldPath) : Expr :=
  .binary (.compare .eq) (.binary .extract source (.value (.text path.jsonPath))) (.param 0)

/-- The grammar reads the comparison and stops at the order. -/
theorem expression_comparison (path : FieldPath) {ls : List Lexeme} (stops : Grammar.connective? ls = none) :
    Grammar.expression (comparison path ++ ls) = some (compared (.name none "data" false) path, ls) := by
  have fuel : 4 * (comparison path ++ ls).length + 4 = 4 * ls.length + 36 := by
    simp only [comparison, List.length_append, List.length_cons, List.length_nil]
    omega
  rw [Grammar.expression, fuel]
  generalize 4 * ls.length = k
  have left : Grammar.operand (k + 35) (comparison path ++ ls)
      = some (.binary .extract (.name none "data" false) (.value (.text path.jsonPath)), .symbol "=" :: .param 0 :: ls) := rfl
  have right : Grammar.expr (k + 34) 5 (.param 0 :: ls) = some (.param 0, ls) := by
    rw [Grammar.expr]
    exact operators_of_none stops
  have equals : ∀ rest, Grammar.connective? (.symbol "=" :: rest) = some (.binary (.compare .eq), 4, rest) := fun _ => rfl
  rw [Grammar.expr, left]
  simp only [Option.bind_eq_bind, Option.bind_some]
  rw [Grammar.operators, equals]
  simp only [Nat.not_lt_zero, if_false, right, Option.bind_eq_bind, Option.bind_some]
  exact operators_of_none stops

/-- The reading of the comparison: the condition, and the order and page count. -/
theorem selection?_of_compares {field : String} {p : RawPredicate} {v : Value} (h : IsFieldName field path)
    (plain : ¬ Extracts field.toList) (spelled : Compares field p.sql) (one : p.params = [v]) {scope : Scope}
    (body : scope none "data" = some ⟨.current, .data⟩) (l : Listing) (r : Resolver) :
    p.selection? scope (l.text r) = some ⟨some (compared (.column ⟨.current, .data⟩) path), true⟩ := by
  obtain ⟨ls, order⟩ := l.lexemes_eq_cons r
  have tail : lexemes? (l.text r) = some (l.lexemes r, 0) := by
    unfold lexemes?
    rw [l.lexemesFrom_text]
    rfl
  have stops : Grammar.connective? (l.lexemes r) = none := by
    rw [order]
    rfl
  have resolved : (compared (.name none "data" false) path).resolve scope = some (compared (.column ⟨.current, .data⟩) path) := by
    simp [compared, Expr.resolve, body]
  have listed : RawSelection.isListed? (l.lexemes r) (l.lexemes r) = some true :=
    if_pos (constants_beq (l.isConstant_tokens r))
  have where_ : ∀ rest, Grammar.takeWord "where" (.word "WHERE" :: rest) = some rest := fun _ => rfl
  have some_ : (" WHERE " ++ extractText bodyColumn path ++ " = ?").isEmpty = false := by
    simp
  unfold RawPredicate.selection?
  rw [tail, whereText_of_compares h plain spelled, lexemes?_comparison]
  simp only [Option.bind_eq_bind, Option.bind_some, one, some_, List.length_singleton, ne_eq, not_true_eq_false, if_false,
    Bool.false_eq_true]
  unfold RawSelection.ofLexemes?
  simp only [where_, expression_comparison path stops, resolved, listed, Option.bind_eq_bind, Option.bind_some]
  rfl

end Raw

end Dossier
