import Mathlib.Data.List.TakeWhile
import Dossier.Proofs.Raw.Rewriting

/-!
# Fragments rewritten again

A rewritten fragment that extracts from the body is left alone from then on. Where nothing is extracted, at most `_id` has
become `id`, and the scanner meets the pieces that it met before, but that a number may have taken in the `id` after it
(`rewritten_rewritten`). So rewriting twice is rewriting once, and a condition that has got its `WHERE` gets no second one
(`resolve_and_whereText_repeat`).
-/

namespace Dossier

open Text Sql

namespace Raw

variable {source fragment : String} {c : Char} {cs run rest : List Char}

/-! ## Occurrences -/

theorem occursIn_iff {part : List Char} (cs : List Char) : occursIn part cs = true ↔ part <:+: cs := by
  induction cs with
  | nil => simp [occursIn]
  | cons c cs ih => rw [occursIn, Bool.or_eq_true, List.isPrefixOf_iff_prefix, ih, List.infix_cons_iff]

/-- The characters extract from a document by themselves. -/
def Extracts (cs : List Char) : Prop := "json_extract".toList <:+: cs.map Char.toLower

theorem extracts_iff : extracts fragment = true ↔ Extracts fragment.toList := by
  simp [extracts, occursIn_iff, foldCase, Extracts]

theorem Extracts.append_left (h : Extracts rest) (cs : List Char) : Extracts (cs ++ rest) := by
  unfold Extracts at h ⊢
  rw [List.map_append]
  exact h.trans (List.suffix_append _ _).isInfix

theorem Extracts.append_right (h : Extracts cs) (rest : List Char) : Extracts (cs ++ rest) := by
  unfold Extracts at h ⊢
  rw [List.map_append]
  exact h.trans (List.prefix_append _ _).isInfix

theorem extracts_extractText (source : String) (path : FieldPath) : Extracts (extractText source path).toList := by
  unfold Extracts
  rw [extractText_eq]
  simp only [String.toList_append, List.map_append, List.append_assoc]
  exact List.IsInfix.trans (by decide) (List.prefix_append ("json_extract(".toList.map Char.toLower) _).isInfix

/-! ## What stays as it is -/

theorem ends_dropWhile (p : Char → Bool) (cs : List Char) : Ends p (cs.dropWhile p) := by
  intro c first
  have := List.head?_dropWhile_not p cs
  rw [Option.mem_def] at first
  rw [first] at this
  simpa using this

/-- A rewritten text goes on as little as the text does. -/
theorem rewritten_ends {p : Char → Bool} (ends : Ends p cs)
    (words : (p 'i' = false ∧ p 'j' = false) ∨ ∀ d, isWordStart d = true → p d = true) : Ends p (rewritten source cs) := by
  have none_ : Ends p [] := nofun
  simpa using ends_rewritten ends none_ words

theorem isWordChar_of_isNameChar (h : isNameChar c = true) : isWordChar c = true := by
  simp only [isNameChar, isWordChar, Bool.or_eq_true] at h ⊢
  exact .inl h

theorem isWordChar_of_isNumberChar (h : isNumberChar c = true) : isWordChar c = true := by
  simp only [isNumberChar, isWordChar, Bool.or_eq_true] at h ⊢
  exact h.imp_left .inl

/-- What follows a quoted run does not begin with its delimiter, brackets apart. -/
theorem ends_quotedRun {q : Char} (bracket : q ≠ ']') (cs : List Char) : Ends (· == q) (quotedRun q cs).2 := by
  obtain ⟨-, ⟨-, ends⟩ | ⟨-, empty⟩⟩ := exists_doubled_of_quotedRun bracket cs rfl
  · exact ends
  · rw [empty]
    exact nofun

/-- A quoted run reaches as far before every other rest that does not go on with it. -/
theorem quotedRun_before {q : Char} {run rest rest' : List Char} (cs : List Char) (run_ : quotedRun q cs = (run, rest))
    (empty : rest = [] → rest' = []) (ends : q ≠ ']' → Ends (· == q) rest') : quotedRun q (run ++ rest') = (run, rest') := by
  match cs with
  | [] | [_] =>
    obtain ⟨rfl, rfl⟩ := Prod.mk.inj run_
    rw [empty rfl, List.append_nil]
    rfl
  | c :: d :: more =>
    by_cases closes : c = q
    · subst closes
      by_cases doubled : d = c ∧ c ≠ ']'
      · obtain ⟨rfl, bracket⟩ := doubled
        obtain ⟨rfl, rfl⟩ := Prod.mk.inj ((quotedRun_double bracket more).symm.trans run_)
        rw [List.cons_append, List.cons_append, quotedRun_double bracket, quotedRun_before more rfl empty ends]
      · have single : ∀ (e : Char) (others : List Char), (e = c → c = ']') → quotedRun c (c :: e :: others) = ([c], e :: others) := by
          intro e others apart
          rw [quotedRun, if_pos rfl, if_neg]
          simpa using apart
        rw [single d more (by simpa using doubled)] at run_
        obtain ⟨rfl, rfl⟩ := Prod.mk.inj run_
        cases rest' with
        | nil => rfl
        | cons e others =>
          refine single e others fun same => Decidable.not_not.1 fun bracket => ?_
          exact absurd (ends bracket e rfl) (by simp [same])
    · rw [quotedRun_of_ne closes] at run_
      obtain ⟨rfl, rfl⟩ := Prod.mk.inj run_
      rw [List.cons_append, quotedRun_of_ne closes, quotedRun_before (d :: more) rfl empty ends]

/-- The sign of a placeholder and a name are one piece. -/
theorem rewritten_placeholder (sign : isPlaceholderStart c = true) (all : cs.all isNameChar = true) (ends : Ends isNameChar rest) :
    rewritten source (c :: (cs ++ rest)) = c :: (cs ++ rewritten source rest) := by
  have quote : closing? c = none := by
    simp only [isPlaceholderStart, Bool.or_eq_true, beq_iff_eq] at sign
    rcases sign with ((rfl | rfl) | rfl) | rfl <;> rfl
  have stops : rest.takeWhile isNameChar = [] ∧ rest.dropWhile isNameChar = rest := by
    cases rest with
    | nil => exact ⟨rfl, rfl⟩
    | cons d more => simp [ends d rfl]
  unfold rewritten
  rw [pieces]
  simp only [quote, sign, if_true]
  rw [List.takeWhile_append_of_pos (by simpa using all), List.dropWhile_append_of_pos (by simpa using all), stops.1, stops.2]
  simp [resolvePieces, Piece.chars]

/-- What becomes of a word: nothing, or it is the name of the identifier or a path. -/
theorem resolveWord_cases (source : String) (isCall : Bool) (w : List Char) : resolveWord source isCall w = w
    ∨ (isCall = false ∧ keywords.contains (foldCase (String.ofList w)) = false ∧
      ((w = "_id".toList ∧ resolveWord source isCall w = "id".toList)
        ∨ (columnHeads.contains (String.ofList (wordHead (foldCase (String.ofList w)).toList)) = false
          ∧ ∃ path, FieldPath.parse (String.ofList w) = .ok path ∧ resolveWord source isCall w = (extractText source path).toList))) := by
  unfold resolveWord
  simp only
  split
  · exact .inl rfl
  rename_i plain
  simp only [Bool.or_eq_true, not_or, Bool.not_eq_true] at plain
  split
  · rename_i name
    refine .inr ⟨plain.1, plain.2, .inl ⟨?_, rfl⟩⟩
    rw [← name, String.toList_ofList]
  split
  · exact .inl rfl
  rename_i column
  split
  · rename_i path parsed
    exact .inr ⟨plain.1, plain.2, .inr ⟨by simpa using column, path, parsed, rfl⟩⟩
  · exact .inl rfl

theorem isOther_of_isBlank (h : isBlank c = true) : isOther c = true := by
  have ne : ∀ d : Char, isBlank d = false → c ≠ d := by
    rintro d other rfl
    rw [h] at other
    cases other
  have word : isWordStart c = false := Bool.eq_false_iff.2 fun word => by
    simp [not_isBlank_of_isNameChar (isNameChar_of_isWordStart word)] at h
  have digit : c.isDigit = false := Bool.eq_false_iff.2 fun digit => by
    simp [not_isBlank_of_isNameChar (isNameChar_of_isDigit digit)] at h
  simp [isOther, closing?, isPlaceholderStart, word, digit, ne '\'' (by decide), ne '"' (by decide), ne '\x60' (by decide),
    ne '[' (by decide), ne '?' (by decide), ne ':' (by decide), ne '@' (by decide), ne '$' (by decide)]

/-- The parenthesis of a call stays where it is. -/
theorem opensCall_rewritten (source : String) (cs : List Char) : opensCall (rewritten source cs) = opensCall cs := by
  induction cs with
  | nil => rw [rewritten_nil]
  | cons c cs ih =>
    cases blank : isBlank c with
    | true =>
      rw [rewritten_other (isOther_of_isBlank blank)]
      simpa [opensCall, blank] using ih
    | false =>
      obtain ⟨d, more, eq, which⟩ := head?_rewritten source c cs
      rw [eq]
      rcases which with rfl | ⟨first, rfl | rfl⟩
      · simp [opensCall, blank]
      all_goals
        have ne : c ≠ '(' := by
          rintro rfl
          exact absurd first (by decide)
        simp [opensCall, blank, ne, show isBlank 'i' = false by decide, show isBlank 'j' = false by decide]

/-! ## The second time -/

/-- The identifier under its column name stays. -/
theorem rewritten_id (ends : Ends isWordChar rest) : rewritten source ('i' :: 'd' :: rest) = 'i' :: 'd' :: rewritten source rest := by
  have word : rewritten source ('i' :: (['d'] ++ rest)) = _ := rewritten_word (by decide) (by decide) ends
  have stays : ∀ isCall, resolveWord source isCall ['i', 'd'] = ['i', 'd'] := by
    intro isCall
    cases isCall <;> rfl
  rwa [stays] at word

/-- What follows a number does not go on with it in the rewritten text either, unless it was `_id`. -/
theorem ends_or_id (ends : Ends isNumberChar cs) (plain : ¬ Extracts (rewritten source cs)) : Ends isNumberChar (rewritten source cs)
    ∨ ∃ rest, rewritten source cs = 'i' :: 'd' :: rewritten source rest ∧ Ends isWordChar rest := by
  cases cs with
  | nil => exact .inl (by simpa using ends)
  | cons c cs =>
    cases word : isWordStart c with
    | false =>
      obtain ⟨d, more, eq, rfl | ⟨first, -⟩⟩ := head?_rewritten source c cs
      · rw [eq]
        exact .inl (ends_cons (ends d rfl))
      · simp [word] at first
    | true =>
      have stops := ends_dropWhile isWordChar cs
      rw [← List.takeWhile_append_dropWhile (p := isWordChar) (l := cs), rewritten_word word List.all_takeWhile stops] at plain ⊢
      rcases resolveWord_cases source (opensCall (cs.dropWhile isWordChar)) (c :: cs.takeWhile isWordChar)
        with same | ⟨-, -, ⟨-, name⟩ | ⟨-, path, -, extracted⟩⟩
      · rw [same]
        exact .inl (ends_cons (ends c rfl))
      · exact .inr ⟨_, by rw [name]; rfl, stops⟩
      · rw [extracted] at plain
        exact absurd ((extracts_extractText source path).append_right _) plain

/-- A rewritten text from which nothing is extracted is not rewritten again. -/
theorem rewritten_rewritten (source : String) (cs : List Char) (plain : ¬ Extracts (rewritten source cs)) :
    rewritten source (rewritten source cs) = rewritten source cs := by
  induction cs using pieces.induct with
  | case1 => simp
  | case2 c cs q opens _ ih =>
    cases run_ : quotedRun q cs with
    | mk run rest =>
      have whole : cs = run ++ rest := by simpa [run_] using (quotedRun_append q cs).symm
      subst whole
      rw [run_] at ih
      rw [rewritten_quoted opens run_] at plain ⊢
      have fixed := ih fun h => plain (h.append_left (c :: run))
      have next : quotedRun q (run ++ rewritten source rest) = (run, rewritten source rest) := by
        refine quotedRun_before _ run_ (by rintro rfl; exact rewritten_nil source) fun bracket => ?_
        have ends := ends_quotedRun bracket (run ++ rest)
        rw [run_] at ends
        refine rewritten_ends ends (.inl ?_)
        unfold closing? at opens
        split at opens
        · rename_i which
          cases opens
          simp only [Bool.or_eq_true, decide_eq_true_eq] at which
          rcases which with (rfl | rfl) | rfl <;> decide
        · split at opens <;> cases opens
          exact absurd rfl bracket
      rw [rewritten_quoted opens next, fixed]
  | case3 c cs quote sign _ ih =>
    have ends := ends_dropWhile isNameChar cs
    rw [← List.takeWhile_append_dropWhile (p := isNameChar) (l := cs), rewritten_placeholder sign List.all_takeWhile ends] at plain ⊢
    rw [rewritten_placeholder sign List.all_takeWhile (rewritten_ends ends (.inr fun d => isNameChar_of_isWordStart)),
      ih fun h => plain (h.append_left (c :: cs.takeWhile isNameChar))]
  | case4 c cs quote sign digit _ ih =>
    have ends := ends_dropWhile isNumberChar cs
    rw [← List.takeWhile_append_dropWhile (p := isNumberChar) (l := cs), rewritten_run digit List.all_takeWhile ends] at plain ⊢
    have plain' : ¬ Extracts (rewritten source (cs.dropWhile isNumberChar)) :=
      fun h => plain (h.append_left (c :: cs.takeWhile isNumberChar))
    have fixed := ih plain'
    rcases ends_or_id ends plain' with ends' | ⟨rest, eq, ends'⟩
    · rw [rewritten_run digit List.all_takeWhile ends', fixed]
    · -- the number takes in the `id` that stands right after it now
      have stops : Ends isWordChar (rewritten source rest) :=
        rewritten_ends ends' (.inr fun d first => isWordChar_of_isNameChar (isNameChar_of_isWordStart first))
      rw [eq, rewritten_id stops] at fixed
      obtain ⟨-, fixed⟩ := List.cons.inj (List.cons.inj fixed).2
      have all : (cs.takeWhile isNumberChar ++ ['i', 'd']).all isNumberChar = true := by
        rw [List.all_append, List.all_takeWhile]
        decide
      have run : rewritten source (c :: _) = _ := rewritten_run digit all (stops.imp fun d goes => isWordChar_of_isNumberChar goes)
      rw [eq]
      simpa [fixed] using run
  | case5 c cs quote sign digit word _ ih =>
    have ends := ends_dropWhile isWordChar cs
    rw [← List.takeWhile_append_dropWhile (p := isWordChar) (l := cs), rewritten_word word List.all_takeWhile ends] at plain ⊢
    have fixed := ih fun h => plain (h.append_left _)
    have ends' : Ends isWordChar (rewritten source _) := rewritten_ends ends
      (.inr fun d first => isWordChar_of_isNameChar (isNameChar_of_isWordStart first))
    rcases resolveWord_cases source (opensCall (cs.dropWhile isWordChar)) (c :: cs.takeWhile isWordChar)
      with same | ⟨-, -, ⟨-, name⟩ | ⟨-, path, -, extracted⟩⟩
    · rw [same, List.cons_append, rewritten_word word List.all_takeWhile ends', opensCall_rewritten, same, fixed]
      rfl
    · rw [name]
      exact (rewritten_id ends').trans (by rw [fixed]; rfl)
    · rw [extracted] at plain
      exact absurd ((extracts_extractText source path).append_right _) plain
  | case6 c cs quote sign digit word ih =>
    have other : isOther c = true := by simp [isOther, quote, sign, digit, word]
    rw [rewritten_other other] at plain ⊢
    rw [rewritten_other other, ih fun h => plain (h.append_left [c])]

theorem resolve_of_extracts (h : Extracts fragment.toList) : resolve source fragment = fragment := by
  rw [resolve, extracts_iff.2 h, if_pos rfl]

theorem toList_resolve (h : ¬ Extracts fragment.toList) : (resolve source fragment).toList = rewritten source fragment.toList := by
  rw [resolve, if_neg fun extracts => h (extracts_iff.1 extracts), String.toList_ofList, rewritten]

/-- A rewritten fragment stays as it is. -/
theorem resolve_resolve (source fragment : String) : resolve source (resolve source fragment) = resolve source fragment := by
  by_cases before : Extracts fragment.toList
  · rw [resolve_of_extracts before, resolve_of_extracts before]
  by_cases after : Extracts (resolve source fragment).toList
  · exact resolve_of_extracts after
  · refine String.toList_injective ?_
    rw [toList_resolve after, toList_resolve before, rewritten_rewritten]
    rwa [← toList_resolve before]

/-! ## Blanks at the ends -/

/-- A rewritten text ends as the text does, or as what stands for a word. -/
theorem getLast?_rewritten (source : String) (cs : List Char) : (rewritten source cs).getLast? = cs.getLast?
    ∨ (rewritten source cs).getLast? = some 'd' ∨ (rewritten source cs).getLast? = some ')' := by
  have join : ∀ piece piece' rest : List Char, (piece'.getLast? = piece.getLast? ∨ piece'.getLast? = some 'd' ∨ piece'.getLast? = some ')') →
      ((rewritten source rest).getLast? = rest.getLast? ∨ (rewritten source rest).getLast? = some 'd'
        ∨ (rewritten source rest).getLast? = some ')') →
      (piece' ++ rewritten source rest).getLast? = (piece ++ rest).getLast? ∨ (piece' ++ rewritten source rest).getLast? = some 'd'
        ∨ (piece' ++ rewritten source rest).getLast? = some ')' := by
    intro piece piece' rest here later
    simp only [List.getLast?_append]
    rcases later with same | same | same
    · rw [same]
      cases rest.getLast? with
      | none => simpa using here
      | some d => exact .inl rfl
    · exact .inr (.inl (by rw [same]; rfl))
    · exact .inr (.inr (by rw [same]; rfl))
  induction cs using pieces.induct with
  | case1 => exact .inl (by simp)
  | case2 c cs q opens _ ih =>
    cases run_ : quotedRun q cs with
    | mk run rest =>
      have whole : cs = run ++ rest := by simpa [run_] using (quotedRun_append q cs).symm
      subst whole
      rw [run_] at ih
      rw [rewritten_quoted opens run_]
      exact join (c :: run) _ rest (.inl rfl) ih
  | case3 c cs quote sign _ ih =>
    rw [← List.takeWhile_append_dropWhile (p := isNameChar) (l := cs),
      rewritten_placeholder sign List.all_takeWhile (ends_dropWhile isNameChar cs)]
    exact join (c :: cs.takeWhile isNameChar) _ _ (.inl rfl) ih
  | case4 c cs quote sign digit _ ih =>
    rw [← List.takeWhile_append_dropWhile (p := isNumberChar) (l := cs),
      rewritten_run digit List.all_takeWhile (ends_dropWhile isNumberChar cs)]
    exact join (c :: cs.takeWhile isNumberChar) _ _ (.inl rfl) ih
  | case5 c cs quote sign digit word _ ih =>
    rw [← List.takeWhile_append_dropWhile (p := isWordChar) (l := cs),
      rewritten_word word List.all_takeWhile (ends_dropWhile isWordChar cs)]
    refine join (c :: cs.takeWhile isWordChar) _ _ ?_ ih
    rcases resolveWord_cases source (opensCall (cs.dropWhile isWordChar)) (c :: cs.takeWhile isWordChar)
      with same | ⟨-, -, ⟨-, name⟩ | ⟨-, path, -, extracted⟩⟩
    · exact .inl (by rw [same])
    · exact .inr (.inl (by rw [name]; rfl))
    · refine .inr (.inr ?_)
      rw [extracted, extractText_eq, String.toList_append, show ")".toList = [')'] from rfl, List.getLast?_concat]
  | case6 c cs quote sign digit word ih =>
    have other : isOther c = true := by simp [isOther, quote, sign, digit, word]
    rw [rewritten_other other]
    exact join [c] [c] cs (.inl rfl) ih

/-- Neither the first nor the last character is a blank, and there is one. -/
structure IsTrimmed (cs : List Char) : Prop where
  some_ : cs ≠ []
  first : Ends isBlank cs
  last : Ends isBlank cs.reverse

theorem ends_of_prefix {p : Char → Bool} (ends : Ends p cs) (part : rest <+: cs) : Ends p rest := by
  obtain ⟨more, rfl⟩ := part
  cases rest with
  | nil => exact nofun
  | cons c rest => exact ends_cons (ends c rfl)

theorem isTrimmed_trim (s : String) (some_ : (trim s).toList ≠ []) : IsTrimmed (trim s).toList := by
  refine ⟨some_, ?_, ?_⟩
  all_goals
    rw [trim, String.toList_ofList, trimEnd, trimStart]
  · refine ends_of_prefix (ends_dropWhile isBlank s.toList) ?_
    exact List.reverse_suffix.1 (by simpa using List.dropWhile_suffix isBlank)
  · rw [List.reverse_reverse]
    exact ends_dropWhile isBlank _

/-- The blanks at the end of a text that is not blank are those at the end of it with more in front. -/
theorem trimEnd_append (front : List Char) (some_ : trimEnd cs ≠ []) : trimEnd (front ++ cs) = front ++ trimEnd cs := by
  have some_ : cs.reverse.dropWhile isBlank ≠ [] := fun empty => some_ (by rw [trimEnd, empty]; rfl)
  rw [trimEnd, List.reverse_append, List.dropWhile_append, if_neg (by simpa using some_), List.reverse_append, List.reverse_reverse]
  rfl

theorem dropWhile_eq_self {p : Char → Bool} (ends : Ends p cs) : cs.dropWhile p = cs := by
  cases cs with
  | nil => rfl
  | cons c cs => rw [List.dropWhile_cons, ends c rfl, if_neg Bool.false_ne_true]

theorem IsTrimmed.trim_eq {text : String} (h : IsTrimmed text.toList) : trim text = text := by
  rw [trim, trimStart, dropWhile_eq_self h.first, trimEnd, dropWhile_eq_self h.last, List.reverse_reverse, String.ofList_toList]

/-- Without the blank in front of it a trimmed text is what trimming leaves. -/
theorem IsTrimmed.trim_blank (h : IsTrimmed cs) (blank : isBlank c = true) : trim (String.ofList (c :: cs)) = String.ofList cs := by
  rw [trim, String.toList_ofList, trimStart, List.dropWhile_cons, blank, if_pos rfl, dropWhile_eq_self h.first, trimEnd,
    dropWhile_eq_self h.last, List.reverse_reverse]

theorem length_of_foldCase {word : String} {w : String} (folded : foldCase word = w) : word.toList.length = w.toList.length := by
  rw [← folded, foldCase, String.toList_ofList, List.length_map]

/-- A `WHERE` is taken off together with the blanks after it. -/
theorem IsTrimmed.stripWhere_where (h : IsTrimmed cs) {word : String} (folded : foldCase word = "where") {blanks : List Char}
    (some_ : blanks ≠ []) (blank : blanks.all isBlank = true) : Raw.stripWhere (word.toList ++ (blanks ++ cs)) = cs := by
  obtain ⟨c, more, rfl⟩ := List.exists_cons_of_ne_nil some_
  have length : word.toList.length = 5 := length_of_foldCase folded
  have first : isBlank c = true := (Bool.and_eq_true_iff.1 blank).1
  have strip : Raw.stripWhere (word.toList ++ (c :: more ++ cs)) = trimStart (c :: more ++ cs) := by
    unfold Raw.stripWhere
    simp only
    rw [← length, List.take_left, List.drop_left, String.ofList_toList, if_pos folded, List.cons_append]
    simp [first]
  rw [strip, trimStart, List.dropWhile_append_of_pos (List.all_eq_true.1 blank), dropWhile_eq_self h.first]

theorem IsTrimmed.where (h : IsTrimmed cs) : IsTrimmed ("WHERE ".toList ++ cs) := by
  refine ⟨by simp, ends_cons (by decide), ?_⟩
  obtain ⟨d, more, last⟩ := List.exists_cons_of_ne_nil (show cs.reverse ≠ [] by simpa using h.some_)
  rw [List.reverse_append, last]
  exact ends_cons (h.last d (by rw [last]; rfl))

theorem IsTrimmed.stripWhere (h : IsTrimmed cs) : IsTrimmed (stripWhere cs) := by
  unfold Raw.stripWhere
  simp only
  split
  · split
    · rename_i c more eq
      split
      · have last : Ends isBlank (cs.drop 5).reverse :=
          ends_of_prefix h.last (List.reverse_prefix.2 (List.drop_suffix 5 cs))
        refine ⟨fun empty => ?_, ends_dropWhile isBlank _,
          ends_of_prefix last (List.reverse_prefix.2 (List.dropWhile_suffix isBlank))⟩
        rw [eq] at last empty
        obtain ⟨d, others, end_⟩ := List.exists_cons_of_ne_nil (show (c :: more).reverse ≠ [] by simp)
        rw [end_] at last
        have blank := List.dropWhile_eq_nil_iff.1 empty d (List.mem_reverse.1 (end_ ▸ List.mem_cons_self))
        rw [last d rfl] at blank
        cases blank
      · exact h
    · exact h
  · exact h

theorem IsTrimmed.resolve (h : IsTrimmed cs) (source : String) : IsTrimmed (resolve source (String.ofList cs)).toList := by
  by_cases extracts : Extracts (String.ofList cs).toList
  · rw [resolve_of_extracts extracts, String.toList_ofList]
    exact h
  rw [toList_resolve extracts, String.toList_ofList]
  refine ⟨fun empty => ?_, rewritten_ends h.first (.inl (by decide)), fun c last => ?_⟩
  · obtain ⟨d, more, rfl⟩ := List.exists_cons_of_ne_nil h.some_
    obtain ⟨e, others, eq, -⟩ := head?_rewritten source d more
    rw [eq] at empty
    cases empty
  · rw [List.head?_reverse] at last
    rcases getLast?_rewritten source cs with same | same | same
    · exact h.last c (by rw [List.head?_reverse, ← same]; exact last)
    · obtain rfl := Option.some.inj (same.symm.trans last)
      decide
    · obtain rfl := Option.some.inj (same.symm.trans last)
      decide

end Raw

namespace RawPredicate

open Raw

/-- A condition with its `WHERE` stays as it is. -/
theorem whereText_whereText (p : RawPredicate) : { p with sql := p.whereText }.whereText = p.whereText := by
  by_cases blank : (trim p.sql).toList = []
  · have none_ : p.whereText = "" := by simp [whereText, blank]
    rw [none_]
    rfl
  have body := (isTrimmed_trim p.sql blank).stripWhere.resolve bodyColumn
  have text : p.whereText = String.ofList (' ' :: ("WHERE ".toList
      ++ (resolve bodyColumn (String.ofList (stripWhere (trim p.sql).toList))).toList)) := by
    rw [whereText, if_neg (by simpa using blank), ← String.toList_inj]
    simp [String.toList_append]
  have strip : stripWhere ("WHERE".toList ++ ([' '] ++ _)) = _ := body.stripWhere_where (by decide) (by simp) rfl
  rw [← List.append_assoc, show "WHERE".toList ++ [' '] = "WHERE ".toList by decide] at strip
  have again : { p with sql := p.whereText }.whereText
      = " WHERE " ++ resolve bodyColumn (resolve bodyColumn (String.ofList (stripWhere (trim p.sql).toList))) := by
    rw [whereText]
    simp only
    rw [text, body.where.trim_blank (by decide), String.toList_ofList, strip, String.ofList_toList, if_neg (by simp)]
  rw [again, resolve_resolve, whereText, if_neg (by simpa using blank)]

/-- A condition that is not blank is one `WHERE` and what stands after it. -/
theorem exists_whereText {p : RawPredicate} (some_ : (trim p.sql).toList ≠ []) :
    ∃ body, IsTrimmed body.toList ∧ p.whereText = " WHERE " ++ body :=
  ⟨_, (isTrimmed_trim p.sql some_).stripWhere.resolve bodyColumn, by rw [whereText, if_neg (by simpa using some_)]⟩

/-- A `WHERE` in front of a condition that has none makes no difference. -/
theorem whereText_where {p : RawPredicate} (some_ : (trim p.sql).toList ≠ [])
    (plain : stripWhere (trim p.sql).toList = (trim p.sql).toList) : { p with sql := "WHERE " ++ p.sql }.whereText = p.whereText := by
  have trimmed := isTrimmed_trim p.sql some_
  have core : (trim p.sql).toList = trimEnd (trimStart p.sql.toList) := by rw [trim, String.toList_ofList]
  have text : trim ("WHERE " ++ p.sql)
      = String.ofList ("WHERE".toList ++ (' ' :: p.sql.toList.takeWhile isBlank ++ (trim p.sql).toList)) := by
    have parts : ("WHERE " ++ p.sql).toList
        = "WHERE".toList ++ (' ' :: p.sql.toList.takeWhile isBlank) ++ trimStart p.sql.toList := by
      rw [String.toList_append, trimStart, List.append_assoc, List.cons_append, List.takeWhile_append_dropWhile]
      rfl
    have start : trimStart ("WHERE " ++ p.sql).toList = ("WHERE " ++ p.sql).toList := by
      rw [String.toList_append]
      rfl
    rw [trim, start, parts, trimEnd_append _ (core ▸ some_), core, List.append_assoc]
  have strip : stripWhere ("WHERE".toList ++ (' ' :: p.sql.toList.takeWhile isBlank ++ (trim p.sql).toList)) = (trim p.sql).toList :=
    trimmed.stripWhere_where (by decide) (by simp) (by rw [List.all_cons, List.all_takeWhile]; decide)
  rw [whereText, whereText]
  simp only
  rw [text, String.toList_ofList, strip, plain]
  simp [some_]

/-- Rewriting twice is rewriting once, and a condition gets its `WHERE` once: if it is not blank, exactly one stands in front of
it, whether the caller has written it or not. -/
theorem resolve_and_whereText_repeat (source fragment : String) (p : RawPredicate) :
    resolve source (resolve source fragment) = resolve source fragment
      ∧ { p with sql := p.whereText }.whereText = p.whereText
      ∧ ((trim p.sql).toList = [] → p.whereText = "")
      ∧ ((trim p.sql).toList ≠ [] → (∃ body, IsTrimmed body.toList ∧ p.whereText = " WHERE " ++ body)
        ∧ (stripWhere (trim p.sql).toList = (trim p.sql).toList →
          { p with sql := "WHERE " ++ p.sql }.whereText = p.whereText)) :=
  ⟨resolve_resolve source fragment, p.whereText_whereText, fun blank => by simp [whereText, blank],
    fun some_ => ⟨exists_whereText some_, whereText_where some_⟩⟩

/-- A field is rewritten and a `WHERE` is put in front of it, and then both stay. -/
theorem resolve_and_whereText_repeat_status :
    (⟨"status = ?", [.integer 1]⟩ : RawPredicate).whereText = " WHERE json_extract(data, '$.\"status\"') = ?"
      ∧ (⟨" WHERE json_extract(data, '$.\"status\"') = ?", [.integer 1]⟩ : RawPredicate).whereText
        = " WHERE json_extract(data, '$.\"status\"') = ?"
      ∧ (⟨"WHERE status = ?", [.integer 1]⟩ : RawPredicate).whereText = " WHERE json_extract(data, '$.\"status\"') = ?" := by
  obtain ⟨-, again, -, prefixed⟩ := resolve_and_whereText_repeat "data" "status = ?" ⟨"status = ?", [.integer 1]⟩
  have text : (⟨"status = ?", [.integer 1]⟩ : RawPredicate).whereText = " WHERE json_extract(data, '$.\"status\"') = ?" := by
    decide +kernel
  have front := (prefixed (by decide +kernel)).2 (by decide +kernel)
  rw [text] at again front
  exact ⟨text, again, front⟩

end RawPredicate

end Dossier
