import Dossier.Filter.Term
import Dossier.Proofs.Filter.Selecting
import Dossier.Proofs.Raw.Condition
import Mathlib.Data.List.Basic

/-!
# What the pattern of a regular expression accepts

`Pattern.Admits` says how a literal with anchors admits a text, and `Pattern.Spells` which literal a regular expression
without its anchors spells. `LIKE` with the pattern made of a regular expression accepts what its literal admits
(`Pattern.accepts_likePattern`): an anchor in front is `^`, and one at the end a `$` right after no backslash. Where a final
`$` follows two backslashes, `Pattern.refused_after_escaped` shows that it is taken for a literal although it is not escaped.
-/

namespace Dossier

open Text

/-! ## Items of a pattern -/

namespace Like

variable {rest : List Item} {cs literal : List Char}

theorem items_likeLiteral (c : Char) (cs : List Char) :
    items (some likeEscape) (likeLiteral c ++ cs) = .literal c :: items (some likeEscape) cs := by
  by_cases special : (c = '%' || c = '_' || c = likeEscape) = true
  · rw [likeLiteral, if_pos special, List.cons_append, List.singleton_append, items, if_pos rfl]
  · simp only [Bool.or_eq_true, decide_eq_true_eq, not_or] at special
    obtain ⟨⟨percent, line⟩, escape⟩ := special
    have plain : likeLiteral c = [c] := by simp [likeLiteral, percent, line, escape]
    rw [plain, List.singleton_append, items.eq_def]
    simp only [Option.some.injEq, escape, percent, line, if_false]

theorem items_literals (literal cs : List Char) : items (some likeEscape) (literal.flatMap likeLiteral ++ cs)
    = literal.map .literal ++ items (some likeEscape) cs := by
  induction literal with
  | nil => rfl
  | cons c literal ih => rw [List.flatMap_cons, List.append_assoc, items_likeLiteral, ih, List.map_cons, List.cons_append]

/-- A literal takes the beginning of a text that is the same up to case. -/
theorem matchItems_literals : matchItems (literal.map .literal ++ rest) cs = true
    ↔ ∃ front back, cs = front ++ back ∧ front.map Char.toLower = literal.map Char.toLower ∧ matchItems rest back = true := by
  induction literal generalizing cs with
  | nil => simp
  | cons c literal ih =>
    cases cs with
    | nil => simp [matchItems]
    | cons d cs =>
      rw [List.map_cons, List.cons_append, matchItems, Bool.and_eq_true, ih, sameChar, beq_iff_eq, List.map_cons]
      constructor
      · rintro ⟨same, front, back, rfl, equal, rest⟩
        exact ⟨d :: front, back, rfl, by rw [List.map_cons, same, equal], rest⟩
      · rintro ⟨front, back, text, equal, rest⟩
        cases front with
        | nil => cases equal
        | cons e front =>
          obtain ⟨rfl, rfl⟩ := List.cons.inj text
          obtain ⟨same, equal⟩ := List.cons.inj equal
          exact ⟨same.symm, front, back, rfl, equal, rest⟩

theorem anySuffix_iff {test : List Char → Bool} : anySuffix test cs = true ↔ ∃ front back, cs = front ++ back ∧ test back = true := by
  induction cs with
  | nil => simp [anySuffix]
  | cons c cs ih =>
    rw [anySuffix, Bool.or_eq_true, ih]
    constructor
    · rintro (here | ⟨front, back, rfl, later⟩)
      · exact ⟨[], _, rfl, here⟩
      · exact ⟨c :: front, back, rfl, later⟩
    · rintro ⟨front, back, text, passes⟩
      cases front with
      | nil => exact .inl (text ▸ passes)
      | cons d front => exact .inr ⟨front, back, (List.cons.inj text).2, passes⟩

/-- The wildcard passes over any beginning of a text. -/
theorem matchItems_anything : matchItems (.anything :: rest) cs = true ↔ ∃ front back, cs = front ++ back ∧ matchItems rest back = true := by
  cases cs <;> exact anySuffix_iff

end Like

namespace Pattern

/-! ## Anchors and literals -/

/-- How a literal admits a text, letters of ASCII in either case: as a whole, at the anchored end, or anywhere. -/
def Admits (start finish : Bool) (literal text : List Char) : Prop :=
  match start, finish with
  | true, true => literal.map Char.toLower = text.map Char.toLower
  | true, false => literal.map Char.toLower <+: text.map Char.toLower
  | false, true => literal.map Char.toLower <:+ text.map Char.toLower
  | false, false => literal.map Char.toLower <:+: text.map Char.toLower

/-- The anchor in front, and what follows it. -/
def startAnchor : List Char → Bool × List Char
  | '^' :: rest => (true, rest)
  | cs => (false, cs)

/-- The backslashes that stand one after the other at the end of a text. -/
def backslashes (cs : List Char) : Nat := (cs.reverse.takeWhile (· == '\\')).length

/-- The anchor at the end, and what is before it: a `$` after an even number of backslashes, which do not escape it. -/
def endAnchor (cs : List Char) : Bool × List Char :=
  if cs.getLast? = some '$' ∧ backslashes cs.dropLast % 2 = 0 then (true, cs.dropLast) else (false, cs)

/-- The text that a regular expression without anchors spells: a backslash before punctuation stands for that character, and
every other character for itself. -/
inductive Spells : List Char → List Char → Prop
  | nil : Spells [] []
  | escaped {c : Char} {cs literal : List Char} (mark : isPunctuation c = true) (later : Spells cs literal) :
    Spells ('\\' :: c :: cs) (c :: literal)
  | plain {c : Char} {cs literal : List Char} (alone : c = '\\' → cs.head?.any isPunctuation = false)
    (later : Spells cs literal) : Spells (c :: cs) (c :: literal)

variable {cs literal text : List Char}

theorem spells_dropEscapes (cs : List Char) : Spells cs (dropEscapes cs) := by
  fun_induction dropEscapes cs with
  | case1 c rest mark ih => exact .escaped mark ih
  | case2 c rest mark ih => exact .plain (fun _ => by simpa using mark) ih
  | case3 c rest apart ih =>
    refine .plain (fun back => ?_) ih
    cases rest with
    | nil => rfl
    | cons d rest => exact absurd rfl (apart d rest back)
  | case4 => exact .nil

/-- Every text spells one literal. -/
theorem spells_iff : Spells cs literal ↔ literal = dropEscapes cs := by
  constructor
  · intro spells
    induction spells with
    | nil => rfl
    | escaped mark _ ih => rw [dropEscapes, if_pos mark, ih]
    | @plain c cs _ alone _ ih =>
      rw [ih]
      by_cases back : c = '\\'
      · subst back
        cases cs with
        | nil => rfl
        | cons d rest =>
          have other : isPunctuation d = false := by simpa using alone rfl
          rw [dropEscapes.eq_1, other]
          rfl
      · rw [dropEscapes.eq_2]
        intro d rest same
        exact absurd same back
  · rintro rfl
    exact spells_dropEscapes cs

/-- The literal of a regular expression has no characters of its own. -/
theorem mem_of_mem_dropEscapes {c : Char} (mem : c ∈ dropEscapes cs) : c ∈ cs := by
  fun_induction dropEscapes cs with
  | case1 d rest mark ih =>
    rcases List.mem_cons.1 mem with rfl | later
    · exact List.mem_cons_of_mem _ List.mem_cons_self
    · exact List.mem_cons_of_mem _ (List.mem_cons_of_mem _ (ih later))
  | case2 d rest mark ih =>
    rcases List.mem_cons.1 mem with rfl | later
    · exact List.mem_cons_self
    · exact List.mem_cons_of_mem _ (ih later)
  | case3 d rest apart ih =>
    rcases List.mem_cons.1 mem with rfl | later
    · exact List.mem_cons_self
    · exact List.mem_cons_of_mem _ (ih later)
  | case4 => exact mem

/-- The program takes a final `$` for an anchor where no backslash stands before it. -/
theorem endsAnchored_iff : endsAnchored cs = true ↔ cs.getLast? = some '$' ∧ backslashes cs.dropLast = 0 := by
  rcases List.eq_nil_or_concat cs with rfl | ⟨front, last, rfl⟩
  · simp [endsAnchored]
  · rcases List.eq_nil_or_concat front with rfl | ⟨front, before, rfl⟩
    · by_cases dollar : last = '$' <;> simp [endsAnchored, backslashes, dollar]
    · by_cases dollar : last = '$' <;> by_cases back : before = '\\' <;>
        simp [endsAnchored, backslashes, dollar, back]

/-! ## Acceptance -/

/-- The items of the pattern: the characters of the literal, and a wildcard at each end that is not anchored. -/
theorem items_wildcards (start finish : Bool) (literal : List Char) :
    Like.items (some likeEscape) ((if start then [] else ['%']) ++ literal.flatMap likeLiteral ++ (if finish then [] else ['%']))
      = (if start then [] else [.anything]) ++ (literal.map .literal ++ if finish then [] else [.anything]) := by
  have last : Like.items (some likeEscape) (if finish then [] else ['%']) = if finish then [] else [.anything] := by
    cases finish <;> rfl
  rw [List.append_assoc]
  cases start with
  | true => rw [if_pos rfl, if_pos rfl, List.nil_append, List.nil_append, Like.items_literals, last]
  | false =>
    have wildcard (cs : List Char) : Like.items (some likeEscape) ('%' :: cs) = .anything :: Like.items (some likeEscape) cs := by
      rw [Like.items.eq_def]
      rfl
    rw [if_neg Bool.false_ne_true, if_neg Bool.false_ne_true, List.singleton_append, wildcard, Like.items_literals, last,
      List.singleton_append]

/-- A literal before a wildcard takes a beginning of the text, and one before nothing takes it whole. -/
theorem matchItems_start (finish : Bool) (literal text : List Char) :
    Like.matchItems (literal.map .literal ++ if finish then [] else [.anything]) text = true
      ↔ Admits true finish literal text := by
  rw [Like.matchItems_literals]
  cases finish with
  | true =>
    simp only [if_true, Like.matchItems, List.isEmpty_iff, Admits]
    constructor
    · rintro ⟨front, back, rfl, same, rfl⟩
      rw [List.append_nil, same]
    · intro same
      exact ⟨text, [], (List.append_nil text).symm, same.symm, rfl⟩
  | false =>
    simp only [Bool.false_eq_true, if_false, Admits]
    constructor
    · rintro ⟨front, back, rfl, same, -⟩
      exact ⟨back.map Char.toLower, by rw [List.map_append, same]⟩
    · rintro ⟨after, whole⟩
      obtain ⟨front, back, text, same, -⟩ := List.map_eq_append_iff.1 whole.symm
      exact ⟨front, back, text, same, Like.matchItems_anything.2 ⟨back, [], (List.append_nil back).symm, rfl⟩⟩

/-- A wildcard in front admits what comes at any place of the text. -/
theorem admits_false_iff (finish : Bool) (literal text : List Char) :
    Admits false finish literal text ↔ ∃ front back, text = front ++ back ∧ Admits true finish literal back := by
  constructor
  · intro found
    cases finish with
    | true =>
      obtain ⟨before, whole⟩ := found
      obtain ⟨front, back, text, -, same⟩ := List.map_eq_append_iff.1 whole.symm
      exact ⟨front, back, text, same.symm⟩
    | false =>
      obtain ⟨before, after, whole⟩ := found
      rw [List.append_assoc] at whole
      obtain ⟨front, back, text, -, same⟩ := List.map_eq_append_iff.1 whole.symm
      exact ⟨front, back, text, after, same.symm⟩
  · rintro ⟨front, back, rfl, found⟩
    cases finish with
    | true => exact ⟨front.map Char.toLower, by rw [List.map_append, show literal.map _ = _ from found]⟩
    | false =>
      obtain ⟨after, whole⟩ := found
      exact ⟨front.map Char.toLower, after, by rw [List.map_append, List.append_assoc, whole]⟩

/-- A literal between wildcards takes the texts that it admits. -/
theorem matchItems_iff (start finish : Bool) (literal text : List Char) :
    Like.matchItems ((if start then [] else [.anything]) ++ (literal.map .literal ++ if finish then [] else [.anything])) text = true
      ↔ Admits start finish literal text := by
  cases start with
  | true => exact matchItems_start finish literal text
  | false =>
    rw [if_neg Bool.false_ne_true, List.singleton_append, Like.matchItems_anything, admits_false_iff]
    simp only [matchItems_start]

/-- What is left of a text after its anchor in front. -/
theorem startAnchor_eq (cs : List Char) :
    startAnchor cs = (cs.head? == some '^', if (cs.head? == some '^') = true then cs.drop 1 else cs) := by
  unfold startAnchor
  split
  · rfl
  · rename_i other
    cases cs with
    | nil => rfl
    | cons c cs =>
      have ne : c ≠ '^' := fun same => other cs (same ▸ rfl)
      simp [ne]

/-- The literal between the anchors that the program takes. -/
def taken (inner : List Char) : List Char := dropEscapes (if endsAnchored inner then inner.dropLast else inner)

/-- `LIKE` with the pattern of a regular expression accepts what the literal between the anchors admits. -/
theorem accepts_likePattern {regex s : String} (whole : '\x00' ∉ regex.toList) (whole' : '\x00' ∉ s.toList) :
    Like.accepts (some likeEscape) (likePattern regex) s = true
      ↔ Admits (startAnchor regex.toList).1 (endsAnchored (startAnchor regex.toList).2) (taken (startAnchor regex.toList).2)
        s.toList := by
  have text : (likePattern regex).toList = (if (startAnchor regex.toList).1 = true then [] else ['%'])
      ++ (taken (startAnchor regex.toList).2).flatMap likeLiteral
      ++ (if endsAnchored (startAnchor regex.toList).2 = true then [] else ['%']) := by
    rw [startAnchor_eq, likePattern, String.toList_ofList]
    rfl
  have inner {c : Char} (mem : c ∈ taken (startAnchor regex.toList).2) : c ∈ regex.toList := by
    have within : c ∈ (startAnchor regex.toList).2 := by
      have mem := mem_of_mem_dropEscapes mem
      split at mem
      · exact List.dropLast_subset _ mem
      · exact mem
    rw [startAnchor_eq] at within
    simp only at within
    split at within
    · exact List.mem_of_mem_drop within
    · exact within
  have pattern : '\x00' ∉ (likePattern regex).toList := by
    rw [text]
    simp only [List.mem_append, List.mem_flatMap, not_or, not_exists, not_and]
    refine ⟨⟨by split <;> decide, fun c mem inside => ?_⟩, by split <;> decide⟩
    unfold likeLiteral at inside
    split at inside
    · rcases List.mem_cons.1 inside with escape | last
      · exact absurd escape (by decide)
      · exact whole (List.mem_singleton.1 last ▸ inner mem)
    · exact whole (List.mem_singleton.1 inside ▸ inner mem)
  rw [Like.accepts, Raw.untilNul_of_not_mem pattern, Raw.untilNul_of_not_mem whole', text, items_wildcards, matchItems_iff]

/-- A final `$` has no backslash right before it, or an odd number of them. -/
def Unambiguous (regex : String) : Prop :=
  (startAnchor regex.toList).2.getLast? = some '$' → backslashes (startAnchor regex.toList).2.dropLast = 0
    ∨ backslashes (startAnchor regex.toList).2.dropLast % 2 = 1

instance (regex : String) : Decidable (Unambiguous regex) := inferInstanceAs (Decidable (_ → _))

/-- The program takes the anchor of such a text as it is meant. -/
theorem endAnchor_eq {inner : List Char}
    (clear : inner.getLast? = some '$' → backslashes inner.dropLast = 0 ∨ backslashes inner.dropLast % 2 = 1) :
    endAnchor inner = (endsAnchored inner, if endsAnchored inner then inner.dropLast else inner) := by
  unfold endAnchor
  by_cases anchored : endsAnchored inner = true
  · obtain ⟨dollar, none⟩ := endsAnchored_iff.1 anchored
    rw [if_pos ⟨dollar, by rw [none]⟩, anchored, if_pos rfl]
  · have other : ¬ (inner.getLast? = some '$' ∧ backslashes inner.dropLast % 2 = 0) := by
      rintro ⟨dollar, even⟩
      rcases clear dollar with none | odd
      · exact anchored (endsAnchored_iff.2 ⟨dollar, none⟩)
      · omega
    rw [if_neg other, Bool.eq_false_iff.2 anchored]
    rfl

end Pattern

open Pattern
open Sql (limits)

variable {regex s : String} {x : Operand} {read : Operand → Value}

theorem Condition.holds_pattern (text : read x = .text s) :
    ((Condition.pattern regex).term x).holds read = some (Like.accepts (some likeEscape) (likePattern regex) s) := by
  show Value.like (some likeEscape) (read x) (.text (likePattern regex)) = _
  rw [text]
  rfl

/-- The engine decides the condition alone, unless the pattern is too long. -/
theorem Condition.faults_pattern : Predicate.faults read [(Condition.pattern regex).term x] = false
    ↔ (likePattern regex).utf8ByteSize ≤ limits.patternBytes := by
  have alone : Predicate.faults read [(Condition.pattern regex).term x] = Like.isTooLong (likePattern regex) := by
    rw [Predicate.faults, Predicate.reachesTooLong, Predicate.reachesTooLong, Bool.and_false, Bool.or_false]
    rfl
  rw [alone, Like.isTooLong, decide_eq_false_iff_not, Nat.not_lt]

/-- For every regular expression and every text without U+0000: the regular expression between its anchors spells one literal,
and the condition on a text is true where this literal admits it, if a final `$` follows no backslash or an odd number. The
engine decides the condition, unless the pattern has more bytes than it takes. -/
theorem Condition.admits_of_pattern (text : read x = .text s) (whole : '\x00' ∉ regex.toList) (whole' : '\x00' ∉ s.toList)
    (clear : Unambiguous regex) :
    ∃ literal, (∀ other, Spells (endAnchor (startAnchor regex.toList).2).2 other ↔ other = literal)
      ∧ ∃ b, ((Condition.pattern regex).term x).holds read = some b
        ∧ (b = true ↔ Admits (startAnchor regex.toList).1 (endAnchor (startAnchor regex.toList).2).1 literal s.toList)
        ∧ (Predicate.faults read [(Condition.pattern regex).term x] = false
          ↔ (likePattern regex).utf8ByteSize ≤ limits.patternBytes) := by
  refine ⟨_, fun other => spells_iff, _, holds_pattern text, ?_, faults_pattern⟩
  rw [accepts_likePattern whole whole', endAnchor_eq clear]
  rfl

/-- Metacharacters of `LIKE` and an escaped point between two anchors. -/
theorem Condition.admits_of_pattern_percent :
    ((Condition.pattern "^50%_a\\.b$").term (.system .id)).holds (fun _ => .text "50%_A.B") = some true := by
  obtain ⟨literal, spelled, b, holds, iff, -⟩ := @admits_of_pattern "^50%_a\\.b$" "50%_A.B" (.system .id)
    (fun _ => .text "50%_A.B") rfl (by decide) (by decide) (by decide)
  obtain rfl := (spelled _).1 (spells_dropEscapes _)
  rw [holds, iff.2 (show _ = _ by decide)]

/-- After an escaped backslash a final `$` is an anchor, but the condition is not true of the text that the literal before it is. -/
theorem Pattern.refused_after_escaped : Spells (endAnchor (startAnchor "a\\\\$".toList).2).2 "a\\".toList
    ∧ Admits (startAnchor "a\\\\$".toList).1 (endAnchor (startAnchor "a\\\\$".toList).2).1 "a\\".toList "a\\".toList
    ∧ ((Condition.pattern "a\\\\$").term (.system .id)).holds (fun _ => .text "a\\") = some false := by
  refine ⟨spells_iff.2 (by decide), ?_, ?_⟩
  · exact List.suffix_refl ("a\\".toList.map Char.toLower)
  · rw [Condition.holds_pattern rfl]
    decide +kernel

end Dossier
