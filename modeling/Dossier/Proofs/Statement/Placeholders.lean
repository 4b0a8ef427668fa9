import Dossier.Statement
import Mathlib.Algebra.BigOperators.Group.List.Basic
import Mathlib.Algebra.GroupWithZero.Nat

/-!
# Placeholders and their values

A statement's text and its values are made apart from each other. `Assembled` says of a text from which sources it is put
together, and `Aligned` that the placeholders of the text are those of its sources, each at the place of the value that its
source brings. `Statement.placeholders_aligned` lists the sources of every statement.
-/

namespace Dossier

/-- The placeholders of a text. -/
def marks (s : String) : Nat := s.toList.count '?'

/-- The values that a condition brings: none for a test for null or presence and for an empty list. -/
def Condition.operands : Condition → List Value
  | .compare .eq .null | .compare .ne .null => []
  | .compare _ operand => [.ofJson operand]
  | .member _ items => items.map .ofJson
  | .present _ => []
  | .pattern regex => [.text (likePattern regex)]

/-- What brings values into a statement: a condition on a field, the bound of a guard, the value or the sum that is written at
a path, a time, or an identifier or body as it stands. -/
inductive Source
  | condition (field : FieldRef) (c : Condition)
  | guard (g : Guard)
  | assignment (a : Assignment)
  | time (now : Int)
  | stored (text : String)

namespace Source

/-- The fragment of SQL in which the values stand. -/
def text (r : Resolver) : Source → String
  | condition field c => (c.term (r.operand field)).text
  | guard g => g.text
  | assignment a => a.text
  | time _ | stored _ => "?"

/-- The values, in order. -/
def values : Source → List Value
  | condition _ c => c.operands
  | guard (.tooGreat _ bound) | guard (.tooSmall _ bound) => [.integer bound]
  | guard (.notAContainer ..) | guard (.notANumber _) => []
  | assignment (.document _ value) => [.jsonText value]
  | assignment (.sum _ delta) => [.ofNumber delta]
  | time now => [.integer now]
  | stored text => [.text text]

end Source

/-- The conditions of a filter, in its order. -/
def Filter.sources (f : Filter) : List Source :=
  f.clauses.flatMap fun clause => clause.conditions.map (.condition clause.field)

/-- What is set and then what is added, in order. -/
def Changes.sources (c : Changes) : List Source :=
  c.set.map (fun e => .assignment (.document e.1 e.2)) ++ c.inc.map fun e => .assignment (.sum e.1 e.2)

/-- A text that is put together from the fragments of sources, in this order, and of texts without placeholders. -/
inductive Assembled (r : Resolver) : List Source → String → Prop
  | glue {text : String} (bare : marks text = 0) : Assembled r [] text
  | source (s : Source) : Assembled r [s] (s.text r)
  | append {front back : List Source} {a b : String} (first : Assembled r front a) (second : Assembled r back b) :
    Assembled r (front ++ back) (a ++ b)

/-- The text is put together from the sources, the values are theirs in order, there are as many values as placeholders, and
every placeholder of the text stands in the fragment of the source that brings the value at its place. -/
structure Aligned (r : Resolver) (sources : List Source) (text : String) (params : List Value) : Prop where
  assembled : Assembled r sources text
  values : params = sources.flatMap Source.values
  count : marks text = params.length
  placed : ∀ before after, text = before ++ "?" ++ after → ∃ front s back a b inner rest, sources = front ++ s :: back
    ∧ Assembled r front a ∧ Assembled r back b ∧ s.text r = inner ++ "?" ++ rest ∧ before = a ++ inner ∧ after = rest ++ b
    ∧ ∃ v, s.values[marks inner]? = some v ∧ params[marks before]? = some v

/-- The statement's text and its values are aligned. -/
abbrev Statement.Aligned (table : CollectionName) (r : Resolver) (sources : List Source) {a : Answer} (s : Statement a) : Prop :=
  Dossier.Aligned r sources (s.text table r) s.params

/-! ## Counting -/

@[simp] theorem marks_append (a b : String) : marks (a ++ b) = marks a + marks b := by
  simp [marks]

theorem marks_mark : marks "?" = 1 := by
  decide

theorem joinWith_singleton (between x : String) : joinWith between [x] = x := by
  simp [joinWith, List.intercalate]

theorem joinWith_cons_cons (between x y : String) (rest : List String) :
    joinWith between (x :: y :: rest) = x ++ between ++ joinWith between (y :: rest) := by
  simp [joinWith, List.intercalate, String.ofList_append, String.append_assoc]

theorem marks_joinWith {between : String} (bare : marks between = 0) (parts : List String) :
    marks (joinWith between parts) = (parts.map marks).sum := by
  induction parts with
  | nil => rfl
  | cons x rest ih =>
    cases rest with
    | nil => rw [joinWith_singleton, List.map_singleton, List.sum_singleton]
    | cons y rest =>
      rw [joinWith_cons_cons, marks_append, marks_append, bare, ih, add_zero]
      simp only [List.map_cons, List.sum_cons]

/-- Segments, and so paths and columns, hold no placeholder. -/
theorem marks_segment {s : String} (plain : IsSegment s) : marks s = 0 := by
  refine List.count_eq_zero.2 fun mem => ?_
  have char := List.all_eq_true.1 plain.2 _ mem
  revert char
  decide

theorem marks_quoteName {name : String} (bare : marks name = 0) : marks (quoteName name) = 0 := by
  have absent := List.count_eq_zero.1 bare
  refine List.count_eq_zero.2 fun mem => ?_
  rw [quoteName, String.toList_ofList, List.mem_append, List.mem_cons, List.mem_flatMap] at mem
  rcases mem with (quote | ⟨c, there, mem⟩) | quote
  · revert quote
    decide
  · split at mem
    · revert mem
      decide
    · exact absent (List.mem_singleton.1 mem ▸ there)
  · revert quote
    decide

theorem CollectionName.marks_quoted (table : CollectionName) : marks table.quoted = 0 := by
  refine marks_quoteName (List.count_eq_zero.2 fun mem => ?_)
  have char := List.all_eq_true.1 table.plain _ mem
  revert char
  decide

namespace FieldPath

theorem marks_literal (p : FieldPath) : marks p.literal = 0 := by
  have path : marks p.jsonPath = 0 := by
    refine List.count_eq_zero.2 fun mem => ?_
    rw [jsonPath, String.toList_ofList, List.mem_cons, List.mem_flatMap] at mem
    rcases mem with dollar | ⟨s, segment, mem⟩
    · revert dollar
      decide
    · rw [List.mem_append, List.mem_cons, List.mem_cons] at mem
      rcases mem with (dot | quote | inside) | quote
      · revert dot
        decide
      · revert quote
        decide
      · exact List.count_eq_zero.1 (marks_segment (p.plain s segment)) inside
      · revert quote
        decide
  rw [literal, marks_append, marks_append, path]
  rfl

theorem marks_column (p : FieldPath) : marks p.column = 0 := by
  rw [column, marks_joinWith (by decide)]
  refine List.sum_eq_zero fun n mem => ?_
  obtain ⟨s, segment, rfl⟩ := List.mem_map.1 mem
  exact marks_segment (p.plain s segment)

end FieldPath

theorem marks_extractText (p : FieldPath) : marks (extractText bodyColumn p) = 0 := by
  rw [extractText_eq, marks_append, marks_append, marks_append, marks_append, p.marks_literal]
  rfl

theorem Resolver.marks_operand (r : Resolver) (field : FieldRef) : marks (r.operand field).text = 0 := by
  cases field with
  | system c =>
    show marks c.name = 0
    cases c <;> decide
  | body path =>
    rw [operand]
    split
    · exact marks_quoteName path.marks_column
    · exact marks_extractText path

theorem marks_comparison (op : Value.Comparison) : marks op.text = 0 := by
  cases op <;> rfl

theorem Listing.marks_natText (n : Nat) : marks (natText n) = 0 := by
  refine List.count_eq_zero.2 fun mem => ?_
  rw [natText, String.toList_ofList] at mem
  have digit := Nat.isDigit_of_mem_toDigits (by decide) (by decide) mem
  revert digit
  decide

theorem Listing.marks_text (l : Listing) (r : Resolver) : marks (l.text r) = 0 := by
  have order : marks (l.orderText r) = 0 := by
    rw [orderText, marks_append, marks_joinWith (by decide), List.map_append, List.sum_append]
    have keys : ((l.keys.map (SortKey.text r)).map marks).sum = 0 := by
      refine List.sum_eq_zero fun n mem => ?_
      obtain ⟨s, listed, rfl⟩ := List.mem_map.1 mem
      obtain ⟨key, -, rfl⟩ := List.mem_map.1 listed
      rw [SortKey.text, marks_append, marks_append, r.marks_operand]
      cases key.direction <;> rfl
    rw [keys]
    rfl
  have page : marks l.pageText = 0 := by
    unfold pageText
    split
    · rfl
    · rw [marks_append, marks_natText]
      rfl
    · rw [marks_append, marks_append, marks_append, marks_natText, marks_natText]
      rfl
    · rw [marks_append, marks_natText]
      rfl
  rw [text, marks_append, order, page]

/-! ## Sources and their fragments -/

/-- What a term reads, if it reads anything. -/
def Term.operand? : Term → Option Operand
  | isNull x | notNull x | compare x _ _ | compareReal x _ _ | member x _ _ | like x _ => some x
  | constant _ => none

/-- A term has a placeholder for each of its values. -/
theorem Term.marks_text {t : Term} (bare : ∀ x, t.operand? = some x → marks x.text = 0) : marks t.text = t.params.length := by
  cases t with
  | isNull x | notNull x =>
    rw [text, marks_append, bare x rfl]
    rfl
  | compare x op v =>
    rw [text, marks_append, marks_append, marks_append, bare x rfl, marks_comparison]
    rfl
  | compareReal x op v =>
    rw [text, marks_append, marks_append, marks_append, marks_append, bare x rfl, marks_comparison]
    rfl
  | member x negated vs =>
    have one : (vs.map fun _ => "?").map marks = vs.map fun _ => 1 := by
      simp only [List.map_map, Function.comp_def, marks_mark]
    rw [text, marks_append, marks_append, marks_append, bare x rfl, commaList, marks_joinWith (by decide), one]
    cases negated <;> simp [params, marks]
  | like x pattern =>
    rw [text, marks_append, bare x rfl]
    rfl
  | constant b => cases b <;> rfl

namespace Condition

/-- A condition's term brings the condition's operands. -/
theorem params_term (x : Operand) (c : Condition) : (c.term x).params = c.operands := by
  cases c with
  | compare op operand => cases op <;> cases operand <;> cases x <;> rfl
  | member negated items => cases items <;> rfl
  | present wanted => cases wanted <;> rfl
  | pattern regex => rfl

theorem operand?_term {x y : Operand} {c : Condition} (reads : (c.term x).operand? = some y) : y = x := by
  cases c with
  | compare op operand => cases op <;> cases operand <;> cases x <;> exact (Option.some.inj reads).symm
  | member negated items =>
    cases items with
    | nil => cases reads
    | cons item rest => exact (Option.some.inj reads).symm
  | present wanted => cases wanted <;> exact (Option.some.inj reads).symm
  | pattern regex => exact (Option.some.inj reads).symm

end Condition

theorem Guard.marks_text (g : Guard) : marks g.text = (Source.guard g).values.length := by
  have type (p : FieldPath) : marks (typeText p) = 0 := by
    show marks ("json_type(" ++ bodyColumn ++ ", " ++ p.literal ++ ")") = 0
    rw [marks_append, marks_append, marks_append, marks_append, p.marks_literal]
    rfl
  have bound (p : FieldPath) (op : Value.Comparison) : marks (boundText p op) = 1 := by
    simp only [boundText, marks_append, type, marks_extractText, marks_comparison]
    rfl
  cases g with
  | notAContainer path ancestor =>
    rw [text, marks_append, type]
    rfl
  | notANumber path =>
    rw [text, marks_append, type]
    rfl
  | tooGreat path n => exact bound path .gt
  | tooSmall path n => exact bound path .lt

/-- The values of a guard are those of its source. -/
theorem Guard.params_eq : Guard.params = fun g => (Source.guard g).values := by
  funext g
  cases g <;> rfl

theorem Assignment.marks_text (a : Assignment) : marks a.text = (Source.assignment a).values.length := by
  rw [text, marks_append, marks_append, FieldPath.marks_literal]
  cases a with
  | document path value =>
    rw [expression]
    rfl
  | sum path delta =>
    rw [expression, marks_append, marks_append, marks_extractText]
    rfl

/-- Every source has a placeholder for each of its values. -/
theorem Source.marks_text (r : Resolver) (s : Source) : marks (s.text r) = s.values.length := by
  cases s with
  | condition field c =>
    show marks (c.term (r.operand field)).text = c.operands.length
    rw [Term.marks_text fun x reads => Condition.operand?_term reads ▸ r.marks_operand field, c.params_term]
  | guard g => exact g.marks_text
  | assignment a => exact a.marks_text
  | time _ | stored _ => exact marks_mark

/-! ## Assembled texts -/

/-- A text that two parts make is cut at a placeholder of the first or of the second. -/
theorem append_split {a b before after : String} (cut : a ++ b = before ++ "?" ++ after) :
    (∃ rest, a = before ++ "?" ++ rest ∧ after = rest ++ b) ∨ ∃ start, b = start ++ "?" ++ after ∧ before = a ++ start := by
  have mark : "?".toList = ['?'] := by decide
  have lists := congrArg String.toList cut
  rw [String.toList_append, String.append_assoc, String.toList_append, String.toList_append, mark,
    List.append_eq_append_iff] at lists
  rcases lists with ⟨start, first, second⟩ | ⟨rest, first, second⟩
  · refine .inr ⟨String.ofList start, ?_, ?_⟩
    · rw [← String.toList_inj]
      simpa [mark] using second
    · rw [← String.toList_inj]
      simpa using first
  · cases rest with
    | nil =>
      refine .inr ⟨"", ?_, ?_⟩
      · rw [← String.toList_inj]
        simpa [mark] using second.symm
      · rw [← String.toList_inj]
        simpa using first.symm
    | cons c rest =>
      obtain ⟨rfl, later⟩ := List.cons.inj second
      refine .inl ⟨String.ofList rest, ?_, ?_⟩
      · rw [← String.toList_inj]
        simpa [mark] using first
      · rw [← String.toList_inj]
        simpa using later

namespace Assembled

variable {r : Resolver} {sources : List Source} {a b text between : String}

/-- A text after one without placeholders. -/
theorem after (bare : marks a = 0) (h : Assembled r sources b) : Assembled r sources (a ++ b) :=
  (glue bare).append h

/-- A text before one without placeholders. -/
theorem before (h : Assembled r sources a) (bare : marks b = 0) : Assembled r sources (a ++ b) :=
  List.append_nil sources ▸ h.append (glue bare)

/-- Parts that are assembled one by one. -/
theorem joinWith {α : Type} {sourcesOf : α → List Source} {textOf : α → String} (bare : marks between = 0) (xs : List α)
    (each : ∀ x ∈ xs, Assembled r (sourcesOf x) (textOf x)) :
    Assembled r (xs.flatMap sourcesOf) (joinWith between (xs.map textOf)) := by
  induction xs with
  | nil => exact glue rfl
  | cons x rest ih =>
    have first := each x List.mem_cons_self
    have later := ih fun y mem => each y (List.mem_cons_of_mem _ mem)
    cases rest with
    | nil => simpa [joinWith_singleton] using first
    | cons y rest =>
      rw [List.map_cons, List.map_cons, joinWith_cons_cons, List.flatMap_cons]
      exact (first.before bare).append later

/-- As many placeholders as the sources bring values. -/
theorem marks_eq (h : Assembled r sources text) : marks text = (sources.flatMap Source.values).length := by
  induction h with
  | glue bare => exact bare
  | source s => rw [s.marks_text, List.flatMap_singleton]
  | append _ _ first second => rw [marks_append, first, second, List.flatMap_append, List.length_append]

/-- A placeholder stands in the fragment of the source that brings the value at its place. -/
theorem placed (h : Assembled r sources text) {before after : String} (cut : text = before ++ "?" ++ after) :
    ∃ front s back a b inner rest, sources = front ++ s :: back ∧ Assembled r front a ∧ Assembled r back b
      ∧ s.text r = inner ++ "?" ++ rest ∧ before = a ++ inner ∧ after = rest ++ b
      ∧ ∃ v, s.values[marks inner]? = some v ∧ (sources.flatMap Source.values)[marks before]? = some v := by
  induction h generalizing before after with
  | glue bare =>
    have some : 0 < marks (before ++ "?" ++ after) := by
      rw [marks_append, marks_append, marks_mark]
      omega
    rw [← cut, bare] at some
    exact absurd some (Nat.lt_irrefl 0)
  | source s =>
    have inside : marks before < s.values.length := by
      rw [← s.marks_text r, cut, marks_append, marks_append, marks_mark]
      omega
    refine ⟨[], s, [], "", "", before, after, rfl, glue rfl, glue rfl, cut, by simp, by simp, _,
      List.getElem?_eq_getElem inside, ?_⟩
    rw [List.flatMap_singleton, List.getElem?_eq_getElem inside]
  | @append front back a b first second ihFirst ihSecond =>
    rcases append_split cut with ⟨rest, inFirst, rfl⟩ | ⟨start, inSecond, rfl⟩
    · obtain ⟨left, s, right, x, y, inner, rest', rfl, hLeft, hRight, fragment, rfl, rfl, v, own, there⟩ := ihFirst inFirst
      refine ⟨left, s, right ++ back, x, y ++ b, inner, rest', ?_, hLeft, hRight.append second, fragment, rfl, ?_, v, own, ?_⟩
      · rw [List.append_assoc, List.cons_append]
      · rw [String.append_assoc]
      · rw [List.flatMap_append, List.getElem?_append_left (List.getElem?_eq_some_iff.1 there).1, there]
    · obtain ⟨left, s, right, x, y, inner, rest', rfl, hLeft, hRight, fragment, rfl, rfl, v, own, there⟩ := ihSecond inSecond
      refine ⟨front ++ left, s, right, a ++ x, y, inner, rest', ?_, first.append hLeft, hRight, fragment, ?_, rfl, v, own, ?_⟩
      · rw [List.append_assoc]
      · rw [String.append_assoc]
      · rw [List.flatMap_append, marks_append, first.marks_eq, List.getElem?_append_right (Nat.le_add_right _ _),
          Nat.add_sub_cancel_left, there]

/-- An assembled text is aligned with what its sources bring. -/
theorem aligned (h : Assembled r sources text) {params : List Value} (values : params = sources.flatMap Source.values) :
    Aligned r sources text params where
  assembled := h
  values := values
  count := by rw [h.marks_eq, values]
  placed := fun _ _ cut => values ▸ h.placed cut

end Assembled

/-! ## Filters, changes and guards -/

namespace Filter

variable (f : Filter) (r : Resolver)

theorem texts_predicate : (f.predicate r).map Term.text = f.sources.map (Source.text r) := by
  simp only [predicate, sources, List.map_flatMap, List.map_map]
  rfl

theorem params_predicate : (f.predicate r).params = f.sources.flatMap Source.values := by
  simp only [Predicate.params, predicate, sources, List.flatMap_assoc, List.flatMap_map, Condition.params_term, Source.values]

theorem assembled_text : Assembled r f.sources (f.predicate r).text := by
  have joined := Assembled.joinWith (show marks " AND " = 0 by decide) f.sources fun s _ => Assembled.source (r := r) s
  rwa [List.flatMap_singleton', ← texts_predicate] at joined

theorem assembled_whereText : Assembled r f.sources (f.predicate r).whereText := by
  unfold Predicate.whereText
  split
  · rename_i none
    have texts := f.texts_predicate r
    rw [List.isEmpty_iff.1 none] at texts
    rw [List.map_eq_nil_iff.1 texts.symm]
    exact .glue rfl
  · exact (f.assembled_text r).after (by decide)

theorem assembled_targetText (table : CollectionName) (cardinality : Cardinality) :
    Assembled r f.sources (targetText table (f.predicate r) cardinality) := by
  cases cardinality with
  | many => exact f.assembled_whereText r
  | one =>
    have selection := (f.assembled_whereText r).after (a := " WHERE rowid = (SELECT rowid FROM " ++ table.quoted)
      (by rw [marks_append, table.marks_quoted]; rfl)
    exact selection.before (by decide)

end Filter

namespace Changes

variable (c : Changes) (r : Resolver)

theorem sources_eq : c.sources = c.assignments.map .assignment := by
  rw [sources, assignments, List.map_append, List.map_map, List.map_map]
  rfl

theorem expressionParams_eq : c.expressionParams = c.sources.flatMap Source.values := by
  have one (a : Assignment) : (Source.assignment a).values = [a.param] := by cases a <;> rfl
  rw [sources_eq, List.flatMap_map]
  simp only [one, expressionParams]
  exact (List.flatMap_pure_eq_map ..).symm

theorem marks_removalText : marks c.removalText = 0 := by
  unfold removalText
  split
  · rfl
  · have paths : ((c.unset.map FieldPath.literal).map marks).sum = 0 := by
      refine List.sum_eq_zero fun n mem => ?_
      obtain ⟨s, listed, rfl⟩ := List.mem_map.1 mem
      obtain ⟨p, -, rfl⟩ := List.mem_map.1 listed
      exact p.marks_literal
    rw [marks_append, marks_append, marks_append, marks_append, commaList, marks_joinWith (by decide), paths]
    rfl

theorem assembled_expressionText : Assembled r c.sources c.expressionText := by
  unfold expressionText
  rw [sources_eq]
  split
  · rename_i none
    rw [List.isEmpty_iff.1 none]
    exact .glue c.marks_removalText
  · have joined := Assembled.joinWith (show marks ", " = 0 by decide) c.assignments
      fun a _ => Assembled.source (r := r) (.assignment a)
    rw [← List.map_eq_flatMap] at joined
    have opened := joined.after (a := "json_set(" ++ c.removalText ++ ", ")
      (by rw [marks_append, marks_append, c.marks_removalText]; rfl)
    exact opened.before (by decide)

end Changes

theorem assembled_guardArms (r : Resolver) (guards : List Guard) : Assembled r (guards.map .guard) (guardArms guards) := by
  have arm (g : Guard × Nat) : Assembled r [.guard g.1] ("WHEN " ++ g.1.text ++ " THEN " ++ Listing.natText g.2) :=
    (((Assembled.source (.guard g.1)).after (by decide)).before (by decide)).before (Listing.marks_natText g.2)
  have arms := Assembled.joinWith (show marks " " = 0 by decide) guards.zipIdx fun g _ => arm g
  have sources : guards.map Source.guard = guards.zipIdx.flatMap fun g => [Source.guard g.1] := by
    rw [← List.map_eq_flatMap, ← Function.comp_def Source.guard, ← List.map_map, List.zipIdx_map_fst]
  rwa [← sources] at arms

/-! ## Statements -/

section

variable (table : CollectionName) (r : Resolver) (f : Filter) (c : Changes) (cardinality : Cardinality)

theorem marks_named {text : String} (bare : marks text = 0) : marks (text ++ table.quoted) = 0 := by
  rw [marks_append, bare, table.marks_quoted]

theorem assembled_selected {text : String} (bare : marks text = 0) :
    Assembled r f.sources (text ++ table.quoted ++ (f.predicate r).whereText) :=
  (f.assembled_whereText r).after (marks_named table bare)

theorem assembled_targeted {text : String} (bare : marks text = 0) :
    Assembled r f.sources (text ++ table.quoted ++ targetText table (f.predicate r) cardinality) :=
  (f.assembled_targetText r table cardinality).after (marks_named table bare)

theorem assembled_guard (guards : List Guard) : Assembled r (guards.map .guard ++ f.sources)
    ((Statement.guard guards (f.predicate r) cardinality).text table r) := by
  have arms := (assembled_guardArms r guards).after (show marks "SELECT COALESCE((SELECT code FROM (SELECT CASE " = 0 by decide)
  have target := assembled_targeted table r f cardinality
    (show marks " END AS code, rowid AS position FROM " = 0 by decide)
  have whole := (arms.append target).before
    (show marks ") WHERE code IS NOT NULL ORDER BY position ASC LIMIT 1), -1)" = 0 by decide)
  show Assembled r _ ("SELECT COALESCE((SELECT code FROM (SELECT CASE "
    ++ guardArms guards ++ " END AS code, rowid AS position FROM " ++ table.quoted
    ++ targetText table (f.predicate r) cardinality ++ ") WHERE code IS NOT NULL ORDER BY position ASC LIMIT 1), -1)")
  simpa only [String.append_assoc] using whole

/-- The selection of an update ends with the changed body; what stands before it is the filter's. -/
theorem assembled_changedText : ∃ selection, changedText table c (f.predicate r) cardinality = selection ++ c.expressionText
    ∧ Assembled r f.sources selection := by
  cases cardinality with
  | many =>
    by_cases none : (f.predicate r).isEmpty = true
    · refine ⟨" WHERE " ++ (bodyColumn ++ " IS NOT "), ?_, ?_⟩
      · simp only [changedText, none, if_true, String.append_assoc]
      · have nothing := f.assembled_whereText r
        rw [Predicate.whereText, if_pos none] at nothing
        have selection := nothing.before (show marks (" WHERE " ++ (bodyColumn ++ " IS NOT ")) = 0 by decide)
        rwa [String.empty_append] at selection
    · refine ⟨" WHERE (" ++ (f.predicate r).text ++ (") AND " ++ (bodyColumn ++ " IS NOT ")), ?_, ?_⟩
      · simp only [changedText, if_neg none, String.append_assoc]
      · exact ((f.assembled_text r).after (by decide)).before (by decide)
  | one =>
    refine ⟨targetText table (f.predicate r) .one ++ (" AND " ++ (bodyColumn ++ " IS NOT ")), ?_, ?_⟩
    · simp only [changedText, String.append_assoc]
    · exact (f.assembled_targetText r table .one).before (by decide)

/-- The changed body stands in an update twice, around the time and the filter. -/
theorem assembled_change (now : Int) : ∃ between, (Statement.change c (f.predicate r) cardinality now).text table r
      = "UPDATE " ++ table.quoted ++ " SET data = " ++ c.expressionText ++ between ++ c.expressionText
    ∧ Assembled r (.time now :: f.sources) between := by
  obtain ⟨selection, changed, assembled⟩ := assembled_changedText table r f c cardinality
  refine ⟨", updated_at = ?" ++ selection, ?_, ?_⟩
  · show "UPDATE " ++ table.quoted ++ " SET data = " ++ c.expressionText ++ ", updated_at = ?"
      ++ changedText table c (f.predicate r) cardinality = _
    rw [changed]
    simp only [String.append_assoc]
  · have time : Assembled r [.time now] (", updated_at = " ++ "?") := (Assembled.source (.time now)).after (by decide)
    have joined : ", updated_at = " ++ "?" = ", updated_at = ?" := by decide
    rw [joined] at time
    exact time.append assembled

theorem assembled_insert (id body : String) (now : Int) : Assembled r [.stored id, .stored body, .time now, .time now]
    ((Statement.insert id body now).text table r) := by
  have marked : ") VALUES (?, ?, ?, ?)" = ") VALUES (" ++ joinWith ", " ["?", "?", "?", "?"] ++ ")" := by decide
  have listed : Assembled r [.stored id, .stored body, .time now, .time now] (joinWith ", " ["?", "?", "?", "?"]) :=
    Assembled.joinWith (show marks ", " = 0 by decide) [Source.stored id, .stored body, .time now, .time now]
      fun s _ => Assembled.source (r := r) s
  have inserted := listed.after (a := "INSERT INTO " ++ table.quoted ++ (" (" ++ documentColumns ++ ") VALUES ("))
    (by rw [marks_append, marks_named table (by decide)]; decide)
  have whole := inserted.before (show marks ")" = 0 by decide)
  show Assembled r _ ("INSERT INTO " ++ table.quoted ++ " (" ++ documentColumns ++ ") VALUES (?, ?, ?, ?)")
  rw [marked]
  simpa only [String.append_assoc] using whole

theorem assembled_overwrite (id body : String) (now : Int) : Assembled r [.stored body, .time now, .stored id]
    ((Statement.overwrite id body now).text table r) := by
  have marked : " SET data = ?, updated_at = ? WHERE id = ?"
      = " SET data = " ++ "?" ++ (", updated_at = " ++ "?") ++ (" WHERE id = " ++ "?") := by decide
  have first : Assembled r [.stored body] ("UPDATE " ++ table.quoted ++ " SET data = " ++ "?") :=
    (Assembled.source (.stored body)).after (by rw [marks_append, marks_named table (by decide)]; decide)
  have second : Assembled r [.time now] (", updated_at = " ++ "?") := (Assembled.source (.time now)).after (by decide)
  have third : Assembled r [.stored id] (" WHERE id = " ++ "?") := (Assembled.source (.stored id)).after (by decide)
  have whole : Assembled r [.stored body, .time now, .stored id] _ := (first.append second).append third
  show Assembled r _ ("UPDATE " ++ table.quoted ++ " SET data = ?, updated_at = ? WHERE id = ?")
  rw [marked]
  simpa only [String.append_assoc] using whole

end

/-- For every table, filter, update, listing, resolver and cardinality: the sources of each statement in the order of its
placeholders. The changed body stands in the update twice, before and after the time and the filter, each time with the values
of the update in order. -/
theorem Statement.placeholders_aligned (table : CollectionName) (r : Resolver) (f : Filter) (c : Changes) (listing : Listing)
    (cardinality : Cardinality) (now : Int) (id body : String) :
    Aligned table r f.sources (find (f.predicate r) listing)
      ∧ Aligned table r f.sources (count (f.predicate r))
      ∧ Aligned table r f.sources (countTargets (f.predicate r) cardinality)
      ∧ Aligned table r f.sources (fetch (f.predicate r) cardinality)
      ∧ Aligned table r (c.guards.map .guard ++ f.sources) (guard c.guards (f.predicate r) cardinality)
      ∧ Aligned table r (c.sources ++ .time now :: f.sources ++ c.sources) (change c (f.predicate r) cardinality now)
      ∧ Aligned table r f.sources (delete (f.predicate r) cardinality)
      ∧ Aligned table r [.stored id, .stored body, .time now, .time now] (insert id body now)
      ∧ Aligned table r [.stored body, .time now, .stored id] (overwrite id body now)
      ∧ Dossier.Aligned r c.sources c.expressionText c.expressionParams
      ∧ ∃ between, (change c (f.predicate r) cardinality now).text table r
          = "UPDATE " ++ table.quoted ++ " SET data = " ++ c.expressionText ++ between ++ c.expressionText
        ∧ Dossier.Aligned r (.time now :: f.sources) between (.integer now :: (f.predicate r).params)
        ∧ (change c (f.predicate r) cardinality now).params
          = c.expressionParams ++ .integer now :: (f.predicate r).params ++ c.expressionParams := by
  have values := f.params_predicate r
  have selected {text : String} (bare : marks text = 0) := assembled_selected table r f bare
  have targeted {text : String} (bare : marks text = 0) := assembled_targeted table r f cardinality bare
  have changed := c.assembled_expressionText r
  obtain ⟨between, text, assembled⟩ := assembled_change table r f c cardinality now
  have params : (Statement.change c (f.predicate r) cardinality now).params
      = c.expressionParams ++ .integer now :: (f.predicate r).params ++ c.expressionParams := by
    show c.expressionParams ++ [.integer now] ++ (f.predicate r).params ++ c.expressionParams = _
    rw [List.append_assoc c.expressionParams, List.singleton_append]
  refine ⟨?_, ?_, ?_, ?_, ?_, ?_, ?_, ?_, ?_, changed.aligned c.expressionParams_eq, between, text, ?_, ?_⟩
  · exact ((selected (by decide)).before (listing.marks_text r)).aligned values
  · exact (selected (by decide)).aligned values
  · exact (targeted (by decide)).aligned values
  · cases cardinality with
    | one => exact (((selected (by decide)).before (by decide)).before (by decide)).aligned values
    | many => exact (((selected (by decide)).before (by decide)).before (by decide)).aligned values
  · refine (assembled_guard table r f cardinality c.guards).aligned ?_
    rw [List.flatMap_append, List.flatMap_map, ← values, ← Guard.params_eq]
    rfl
  · refine Assembled.aligned ?_ ?_
    · rw [text]
      exact ((changed.after (by rw [marks_append, marks_append, table.marks_quoted]; rfl)).append assembled).append changed
    · rw [params, List.flatMap_append, List.flatMap_append, ← c.expressionParams_eq, List.flatMap_cons, ← values]
      rfl
  · exact (targeted (by decide)).aligned values
  · exact (assembled_insert table r id body now).aligned rfl
  · exact (assembled_overwrite table r id body now).aligned rfl
  · exact assembled.aligned (congrArg _ values)
  · exact params

end Dossier
