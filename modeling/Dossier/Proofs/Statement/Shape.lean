import Dossier.Proofs.Outcome
import Dossier.Statement
import Mathlib.Data.List.Forall2

/-!
# The shape of a request decides its text

`Filter.SameShape`: two filters have the same fields with the same operators, and their operands agree in kind only.
`Statement.alike_of_shape`: the statements about two such filters, and about changes at the same paths, have one text and
as many values. No operand stands in a text, whatever it holds.
-/

namespace Dossier

open Outcome

namespace Json

def isNull : Json → Bool
  | .null => true
  | _ => false

def isNumber : Json → Bool
  | .number _ => true
  | _ => false

/-- The number of items of an array. -/
def items? : Json → Option Nat
  | .array items => some items.length
  | _ => none

/-- An object with a key that starts with `$`. -/
def isOperators : Json → Bool
  | .object entries => entries.any fun e => isOperatorKey e.1
  | _ => false

end Json

/-- What is made of two lists element by element is related one by one. -/
theorem Outcome.forall₂_mapM {ε α β γ δ : Type} {ρ : α → β → Prop} {σ : γ → δ → Prop} {f : α → Except ε γ}
    {g : β → Except ε δ} {xs : List α} {ys : List β} {zs : List γ} {ws : List δ} (h : List.Forall₂ ρ xs ys)
    (each : ∀ x y, ρ x y → ∀ z w, f x = .ok z → g y = .ok w → σ z w) (made : xs.mapM f = .ok zs) (made' : ys.mapM g = .ok ws) :
    List.Forall₂ σ zs ws := by
  induction h generalizing zs ws with
  | nil =>
    cases made
    cases made'
    exact .nil
  | cons first _ ih =>
    obtain ⟨z, zs, here, later, rfl⟩ := mapM_cons_eq_ok.1 made
    obtain ⟨w, ws, here', later', rfl⟩ := mapM_cons_eq_ok.1 made'
    exact .cons (each _ _ first _ _ here here') (ih later later')

/-! ## Shapes -/

namespace Condition

/-- Operands of an operator that agree in kind: null or not for an equality, a number or a text for a range, as many items
of a list, the same boolean. Patterns always agree. -/
def SameKind (operator : String) (x y : Json) : Prop :=
  match operator with
  | "$eq" | "$ne" => x.isNull = y.isNull
  | "$gt" | "$gte" | "$lt" | "$lte" => x.isNumber = y.isNumber
  | "$in" | "$nin" => x.items? = y.items?
  | "$exists" => x = y
  | _ => True

/-- Values of a field that ask for conditions of one shape. -/
inductive SameShape : Json → Json → Prop
  | literal {x y : Json} (plain : x.isOperators = false) (plain' : y.isOperators = false) (null : x.isNull = y.isNull) :
    SameShape x y
  | operators {es es' : Fields} (operators : (Json.object es).isOperators = true)
    (operators' : (Json.object es').isOperators = true)
    (kinds : List.Forall₂ (fun e e' => e.1 = e'.1 ∧ SameKind e.1 e.2 e'.2) es es') : SameShape (.object es) (.object es')

end Condition

namespace Filter

/-- The fields of a filter with their values. -/
def entries : Json → Fields
  | .object entries => entries
  | _ => []

/-- Filters on the same fields in the same order, each with conditions of one shape. -/
def SameShape (x y : Json) : Prop :=
  List.Forall₂ (fun e e' => e.1 = e'.1 ∧ Condition.SameShape e.2 e'.2) (entries x) (entries y)

end Filter

/-- Changes at the same paths in the same order. -/
structure Changes.SamePaths (c c' : Changes) : Prop where
  set : c.set.map (·.1) = c'.set.map (·.1)
  unset : c.unset = c'.unset
  inc : c.inc.map (·.1) = c'.inc.map (·.1)

/-! ## Terms -/

/-- The operand is no column of every document. -/
def Operand.isBody : Operand → Bool
  | .system _ => false
  | .promoted _ | .extract _ => true

/-- Terms with one text and as many values. -/
structure Term.Alike (t t' : Term) : Prop where
  text : t.text = t'.text
  params : t.params.length = t'.params.length

namespace Condition

/-- Conditions that are alike as terms, whatever they are about. -/
def Alike (c c' : Condition) : Prop := ∀ x : Operand, (c.term x).Alike (c'.term x)

variable {op : Value.Comparison} {x y : Json} {field operator : String} {c c' : Condition} {cs cs' : List Condition}

theorem alike_refl (c : Condition) : c.Alike c := fun _ => ⟨rfl, rfl⟩

/-- An equality looks at its operand only for null. -/
theorem alike_equality (equality : op = .eq ∨ op = .ne) (null : x.isNull = y.isNull) :
    (Condition.compare op x).Alike (.compare op y) := by
  intro column
  rcases equality with rfl | rfl <;> cases x <;> cases y <;> first | exact ⟨rfl, rfl⟩ | cases null

/-- A range compares a number with a body as a double, and all else as it is. -/
theorem compareTerm_range (range : op ≠ .eq ∧ op ≠ .ne) (column : Operand) (x : Json) :
    compareTerm column op x = if x.isNumber && column.isBody then .compareReal column op (.ofJson x)
      else .compare column op (.ofJson x) := by
  cases op with
  | eq => exact absurd rfl range.1
  | ne => exact absurd rfl range.2
  | lt | le | gt | ge =>
    cases x with
    | number n => cases column <;> rfl
    | null | bool | string | array | object => rfl

/-- A range looks at its operand only for a number. -/
theorem alike_range (range : op ≠ .eq ∧ op ≠ .ne) (number : x.isNumber = y.isNumber) :
    (Condition.compare op x).Alike (.compare op y) := by
  intro column
  rw [term, term, compareTerm_range range, compareTerm_range range, number]
  split <;> exact ⟨rfl, rfl⟩

/-- A membership looks at the number of its items. -/
theorem alike_member (negated : Bool) {items items' : List Json} (length : items.length = items'.length) :
    (Condition.member negated items).Alike (.member negated items') := by
  intro column
  cases items with
  | nil =>
    obtain rfl := List.length_eq_zero_iff.1 length.symm
    exact ⟨rfl, rfl⟩
  | cons item rest =>
    cases items' with
    | nil => cases length
    | cons item' rest' =>
      refine ⟨?_, by simpa [term, Term.params] using length⟩
      have marks : ((item :: rest).map Value.ofJson).map (fun _ => "?") = ((item' :: rest').map Value.ofJson).map fun _ => "?" := by
        simp only [List.map_map, Function.comp_def, List.map_const', length]
      rw [term, term, Term.text, Term.text, marks]
      all_goals rintro ⟨⟩

/-- A comparison takes its operand as it is. -/
theorem parse_comparison (compares : comparison? operator = some op) (parsed : Condition.parse field operator x = .ok c) :
    c = .compare op x := by
  unfold Condition.parse at parsed
  simp only [compares] at parsed
  split at parsed
  · exact (Except.ok.inj parsed).symm
  · cases parsed

/-- Operands of one kind make conditions that are alike. -/
theorem parse_alike (kind : SameKind operator x y) (parsed : Condition.parse field operator x = .ok c)
    (parsed' : Condition.parse field operator y = .ok c') : c.Alike c' := by
  cases compares : comparison? operator with
  | some op =>
    rw [parse_comparison compares parsed, parse_comparison compares parsed']
    unfold comparison? at compares
    split at compares
    · cases compares
      exact alike_equality (.inl rfl) kind
    · cases compares
      exact alike_equality (.inr rfl) kind
    · cases compares
      exact alike_range ⟨nofun, nofun⟩ kind
    · cases compares
      exact alike_range ⟨nofun, nofun⟩ kind
    · cases compares
      exact alike_range ⟨nofun, nofun⟩ kind
    · cases compares
      exact alike_range ⟨nofun, nofun⟩ kind
    · cases compares
  | none =>
    unfold Condition.parse at parsed
    simp only [compares] at parsed
    split at parsed <;> cases parsed
    -- the operator is known, so the second operand has to be of the kind of the first
    all_goals cases y <;> cases parsed'
    · exact alike_member _ (Option.some.inj kind)
    · exact alike_member _ (Option.some.inj kind)
    · cases kind
      exact alike_refl _
    · exact fun _ => ⟨rfl, rfl⟩

/-- A value that is no operator object is one condition. -/
theorem parseAll_literal (plain : x.isOperators = false) : Condition.parseAll field x = .ok [.compare .eq x] := by
  cases x with
  | object entries =>
    rw [Json.isOperators] at plain
    simp only [parseAll, plain, Bool.false_eq_true, if_false]
  | _ => rfl

/-- An operator object is one condition for each of its entries. -/
theorem parseAll_operators {es : Fields} (operators : (Json.object es).isOperators = true)
    (parsed : Condition.parseAll field (.object es) = .ok cs) : es.mapM (fun e => Condition.parse field e.1 e.2) = .ok cs := by
  rw [Json.isOperators] at operators
  simp only [parseAll, operators, if_true] at parsed
  split at parsed
  · exact parsed
  · cases parsed

/-- Values of one shape make conditions that are alike one by one. -/
theorem parseAll_alike (shape : SameShape x y) (parsed : Condition.parseAll field x = .ok cs)
    (parsed' : Condition.parseAll field y = .ok cs') : List.Forall₂ Alike cs cs' := by
  cases shape with
  | literal plain plain' null =>
    rw [parseAll_literal plain] at parsed
    rw [parseAll_literal plain'] at parsed'
    cases parsed
    cases parsed'
    exact .cons (alike_equality (.inl rfl) null) .nil
  | operators operators operators' kinds =>
    refine forall₂_mapM kinds ?_ (parseAll_operators operators parsed) (parseAll_operators operators' parsed')
    rintro ⟨key, _⟩ ⟨_, _⟩ ⟨rfl, kind⟩ c c' parsed parsed'
    exact parse_alike kind parsed parsed'

end Condition

/-! ## Predicates -/

/-- Clauses about one field, with conditions that are alike one by one. -/
structure Clause.Alike (c c' : Clause) : Prop where
  field : c.field = c'.field
  conditions : List.Forall₂ Condition.Alike c.conditions c'.conditions

theorem Clause.parse_alike {name : String} {x y : Json} {c c' : Clause} (shape : Condition.SameShape x y)
    (parsed : Clause.parse name x = .ok c) (parsed' : Clause.parse name y = .ok c') : c.Alike c' := by
  obtain ⟨field, read, parsed⟩ := bind_eq_ok.1 parsed
  obtain ⟨field', read', parsed'⟩ := bind_eq_ok.1 parsed'
  obtain ⟨cs, conditions, made⟩ := bind_eq_ok.1 parsed
  obtain ⟨cs', conditions', made'⟩ := bind_eq_ok.1 parsed'
  cases made
  cases made'
  exact ⟨Except.ok.inj (read.symm.trans read'), Condition.parseAll_alike shape conditions conditions'⟩

/-- Predicates of which the terms are alike one by one. -/
abbrev Predicate.Alike : Predicate → Predicate → Prop := List.Forall₂ Term.Alike

namespace Filter

variable {x y : Json} {f f' : Filter}

theorem parse_entries (parsed : Filter.parse x = .ok f) :
    (entries x).mapM (fun e => Clause.parse e.1 e.2) = .ok f.clauses := by
  cases x with
  | null => cases parsed; rfl
  | object es =>
    obtain ⟨clauses, read, made⟩ := bind_eq_ok.1 parsed
    cases made
    exact read
  | _ => cases parsed

theorem parse_alike (shape : SameShape x y) (parsed : Filter.parse x = .ok f) (parsed' : Filter.parse y = .ok f') :
    List.Forall₂ Clause.Alike f.clauses f'.clauses := by
  refine forall₂_mapM shape ?_ (parse_entries parsed) (parse_entries parsed')
  rintro ⟨name, _⟩ ⟨_, _⟩ ⟨rfl, shape⟩ c c' parsed parsed'
  exact Clause.parse_alike shape parsed parsed'

/-- Filters of one shape compile to predicates that are alike, whatever is promoted. -/
theorem predicate_alike (shape : SameShape x y) (parsed : Filter.parse x = .ok f) (parsed' : Filter.parse y = .ok f')
    (r : Resolver) : Predicate.Alike (f.predicate r) (f'.predicate r) := by
  have clauses := parse_alike shape parsed parsed'
  unfold predicate
  generalize f.clauses = cs, f'.clauses = cs' at clauses
  induction clauses with
  | nil => exact .nil
  | cons first _ ih =>
    rw [List.flatMap_cons, List.flatMap_cons, ← first.field]
    refine List.rel_append (List.rel_map ?_ first.conditions) ih
    exact fun _ _ alike => alike _

end Filter

namespace Predicate

variable {p p' : Predicate}

theorem Alike.texts (h : p.Alike p') : p.map Term.text = p'.map Term.text := by
  induction h with
  | nil => rfl
  | cons first _ ih => rw [List.map_cons, List.map_cons, first.text, ih]

theorem Alike.text (h : p.Alike p') : p.text = p'.text := by rw [Predicate.text, Predicate.text, h.texts]

theorem Alike.isEmpty (h : p.Alike p') : p.isEmpty = p'.isEmpty := by cases h <;> rfl

theorem Alike.whereText (h : p.Alike p') : p.whereText = p'.whereText := by
  rw [Predicate.whereText, Predicate.whereText, h.text, h.isEmpty]

theorem Alike.params (h : p.Alike p') : p.params.length = p'.params.length := by
  unfold Predicate.params
  induction h with
  | nil => rfl
  | cons first _ ih => rw [List.flatMap_cons, List.flatMap_cons, List.length_append, List.length_append, first.params, ih]

end Predicate

/-! ## Changes -/

namespace Changes

variable {c c' : Changes}

/-- Assignments are written by their paths alone. -/
theorem SamePaths.assignments (h : c.SamePaths c') : c.assignments.map Assignment.text = c'.assignments.map Assignment.text := by
  have documents : ∀ set : List (FieldPath × Json), (set.map fun e => Assignment.document e.1 e.2).map Assignment.text
      = (set.map (·.1)).map fun path => (Assignment.document path .null).text := by
    intro set
    rw [List.map_map, List.map_map]
    rfl
  have sums : ∀ inc : List (FieldPath × Number), (inc.map fun e => Assignment.sum e.1 e.2).map Assignment.text
      = (inc.map (·.1)).map fun path => (Assignment.sum path .zero).text := by
    intro inc
    rw [List.map_map, List.map_map]
    rfl
  unfold Changes.assignments
  rw [List.map_append, List.map_append, documents, documents, sums, sums, h.set, h.inc]

theorem SamePaths.length (h : c.SamePaths c') : c.assignments.length = c'.assignments.length := by
  simpa using congrArg List.length h.assignments

theorem SamePaths.expressionText (h : c.SamePaths c') : c.expressionText = c'.expressionText := by
  have none : c.assignments.isEmpty = c'.assignments.isEmpty := by
    rw [Bool.eq_iff_iff, List.isEmpty_iff_length_eq_zero, List.isEmpty_iff_length_eq_zero, h.length]
  unfold Changes.expressionText removalText
  rw [none, h.unset, h.assignments]

theorem SamePaths.expressionParams (h : c.SamePaths c') : c.expressionParams.length = c'.expressionParams.length := by
  rw [Changes.expressionParams, Changes.expressionParams, List.length_map, List.length_map, h.length]

end Changes

/-! ## Statements -/

/-- Statements with one text for a table and as many values. -/
structure Statement.Alike (table : CollectionName) (r : Resolver) {a : Answer} (s s' : Statement a) : Prop where
  text : s.text table r = s'.text table r
  params : s.params.length = s'.params.length

section

variable {table : CollectionName} {r : Resolver} {p p' : Predicate} {c c' : Changes}

theorem targetText_alike (h : p.Alike p') (cardinality : Cardinality) :
    targetText table p cardinality = targetText table p' cardinality := by
  cases cardinality with
  | many => exact h.whereText
  | one =>
    exact congrArg (fun selection => " WHERE rowid = (SELECT rowid FROM " ++ table.quoted ++ selection
      ++ " ORDER BY rowid ASC LIMIT 1)") h.whereText

theorem changedText_alike (h : p.Alike p') (paths : c.SamePaths c') (cardinality : Cardinality) :
    changedText table c p cardinality = changedText table c' p' cardinality := by
  cases cardinality with
  | many => simp only [changedText, h.isEmpty, h.text, paths.expressionText]
  | one =>
    show targetText table p .one ++ " AND " ++ (bodyColumn ++ " IS NOT " ++ c.expressionText) = _
    rw [targetText_alike h, paths.expressionText]
    rfl

end

/-- Two accepted filters that differ in their operands alone, and these agree in kind, and any changes at the same paths make
statements of one text and as many values, for every table, whatever is promoted and however the documents are listed. -/
theorem Statement.alike_of_shape {filter filter' : Json} {f f' : Filter} {c c' : Changes}
    (parsed : Filter.parse filter = .ok f) (parsed' : Filter.parse filter' = .ok f') (shape : Filter.SameShape filter filter')
    (paths : c.SamePaths c') (table : CollectionName) (r : Resolver) (listing : Listing) (cardinality : Cardinality)
    (now now' : Int) :
    Alike table r (find (f.predicate r) listing) (find (f'.predicate r) listing)
      ∧ Alike table r (count (f.predicate r)) (count (f'.predicate r))
      ∧ Alike table r (countTargets (f.predicate r) cardinality) (countTargets (f'.predicate r) cardinality)
      ∧ Alike table r (fetch (f.predicate r) cardinality) (fetch (f'.predicate r) cardinality)
      ∧ Alike table r (delete (f.predicate r) cardinality) (delete (f'.predicate r) cardinality)
      ∧ Alike table r (change c (f.predicate r) cardinality now) (change c' (f'.predicate r) cardinality now') := by
  have alike := Filter.predicate_alike shape parsed parsed' r
  have length : (c.expressionParams ++ [Value.integer now] ++ (f.predicate r).params ++ c.expressionParams).length
      = (c'.expressionParams ++ [Value.integer now'] ++ (f'.predicate r).params ++ c'.expressionParams).length := by
    simp only [List.length_append, paths.expressionParams, alike.params, List.length_cons]
  refine ⟨⟨?_, alike.params⟩, ⟨?_, alike.params⟩, ⟨?_, alike.params⟩, ⟨?_, alike.params⟩, ⟨?_, alike.params⟩, ?_, length⟩
  · exact congrArg (fun selection => "SELECT " ++ documentColumns ++ " FROM " ++ table.quoted ++ selection ++ listing.text r)
      alike.whereText
  · exact congrArg (fun selection => "SELECT COUNT(*) FROM " ++ table.quoted ++ selection) alike.whereText
  · exact congrArg (fun target => "SELECT COUNT(*) FROM " ++ table.quoted ++ target) (targetText_alike alike cardinality)
  · have select (limit : String) := congrArg
      (fun selection => "SELECT id, data FROM " ++ table.quoted ++ selection ++ " ORDER BY rowid ASC" ++ limit) alike.whereText
    cases cardinality with
    | one => exact select " LIMIT 1"
    | many => exact select ""
  · exact congrArg (fun target => "DELETE FROM " ++ table.quoted ++ target) (targetText_alike alike cardinality)
  · show "UPDATE " ++ table.quoted ++ " SET data = " ++ c.expressionText ++ ", updated_at = ?"
      ++ changedText table c (f.predicate r) cardinality = _
    rw [changedText_alike alike paths, paths.expressionText]
    rfl

/-- A filter on a name, an age and a list of tags. -/
def Json.selection (name : String) (age : Number) (tags : List Json) : Json :=
  .object [("name", .string name), ("age", .object [("$gt", .number age), ("$nin", .array tags)])]

/-- Changes that set a note and count. -/
def Changes.noted (note : String) (n : Number) : Changes where
  set := [(⟨["note"], by decide, by decide⟩, .string note)]
  unset := [⟨["old"], by decide, by decide⟩]
  inc := [(⟨["seen"], by decide, by decide⟩, n)]

theorem Statement.alike_of_shape_quotes : ∃ f f' : Filter,
    Filter.parse (.selection "x' OR '1'='1" (.whole ⟨3, by decide⟩) [.null, .string "?"]) = .ok f
      ∧ Filter.parse (.selection "y" (.real 0.5) [.bool true, .array []]) = .ok f'
      ∧ Alike ⟨"reports", by decide⟩ ⟨[]⟩
        (change (.noted "'); DROP TABLE reports; --" .zero) (f.predicate ⟨[]⟩) .many 1)
        (change (.noted "" (.real 2.5)) (f'.predicate ⟨[]⟩) .many 2) := by
  cases parsed : Filter.parse (.selection "x' OR '1'='1" (.whole ⟨3, by decide⟩) [.null, .string "?"]) with
  | error e => cases parsed
  | ok f =>
    cases parsed' : Filter.parse (.selection "y" (.real 0.5) [.bool true, .array []]) with
    | error e => cases parsed'
    | ok f' =>
      have shape : Filter.SameShape (.selection "x' OR '1'='1" (.whole ⟨3, by decide⟩) [.null, .string "?"])
          (.selection "y" (.real 0.5) [.bool true, .array []]) :=
        .cons ⟨rfl, .literal rfl rfl rfl⟩ (.cons ⟨rfl, .operators rfl rfl (.cons ⟨rfl, rfl⟩ (.cons ⟨rfl, rfl⟩ .nil))⟩ .nil)
      have paths : (Changes.noted "'); DROP TABLE reports; --" .zero).SamePaths (.noted "" (.real 2.5)) := ⟨rfl, rfl, rfl⟩
      exact ⟨f, f', rfl, rfl, (alike_of_shape parsed parsed' shape paths ⟨"reports", by decide⟩ ⟨[]⟩ .all .many 1 2).2.2.2.2.2⟩

end Dossier
