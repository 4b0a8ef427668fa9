import Dossier.Database.Run
import Mathlib.Data.List.Forall2

/-!
# Statements within the limits

What a statement that runs answers is `Database.answer` (`Database.answer_of_run`). The other way round, a statement has
its answer if it `Fits`: the engine takes it, and no pattern of it is too long (`Database.run_of_fits`). The depth of a
conjunction grows with its terms by no more than one a term (`Predicate.depth_le_of_mem_spans`), so that a short one
fits whatever it is about.
-/

namespace Dossier

open Sql (limits)

/-! ## The depth of a conjunction -/

/-- The term takes the same values as another one, and is no deeper. -/
structure Term.Within (t t' : Term) : Prop where
  depth : t.depth ≤ t'.depth
  isZero : t.isZero = t'.isZero
  params : t.params = t'.params
  isTooLong : t.isTooLong = t'.isTooLong

namespace Predicate

theorem depth_and_le (s t : Span) : (s.and t).depth ≤ 1 + max s.depth t.depth := by
  unfold Span.and
  split <;> simp

theorem depth_term_le (t : Term) : t.depth ≤ 4 := by
  have operand : ∀ x : Operand, x.depth ≤ 2 := fun x => by cases x <;> simp [Operand.depth]
  cases t with
  | isNull x | notNull x | compare x _ _ | like x _ | compareReal x _ _ =>
    have := operand x
    simp only [Term.depth]
    omega
  | member x negated vs =>
    have := operand x
    simp only [Term.depth]
    split <;> split <;> omega
  | constant b => simp [Term.depth]

theorem depth_le_of_mem_spansFrom {p : Predicate} {s span : Span} (mem : span ∈ spansFrom s p) :
    span.depth ≤ max s.depth 4 + p.length := by
  induction p generalizing s with
  | nil =>
    obtain rfl := List.mem_singleton.1 mem
    omega
  | cons t ts ih =>
    rcases List.mem_cons.1 mem with rfl | mem
    · omega
    · have later := ih mem
      have both := depth_and_le s t.span
      have one : t.span.depth ≤ 4 := depth_term_le t
      rw [List.length_cons]
      omega

/-- Each term makes a conjunction deeper by one at most. -/
theorem depth_le_of_mem_spans {p : Predicate} {span : Span} (mem : span ∈ p.spans) : span.depth ≤ p.length + 3 := by
  cases p with
  | nil => cases mem
  | cons t ts =>
    have all := depth_le_of_mem_spansFrom mem
    have one : t.span.depth ≤ 4 := depth_term_le t
    rw [List.length_cons]
    omega

/-- Each term takes the values of the one in its place, and is no deeper. -/
abbrev Within (p p' : Predicate) : Prop := List.Forall₂ Term.Within p p'

namespace Within

variable {p p' : Predicate}

theorem spansFrom (h : p.Within p') {s s' : Span} (depth : s.depth ≤ s'.depth) (isZero : s.isZero = s'.isZero) :
    List.Forall₂ (fun s s' : Span => s.depth ≤ s'.depth) (spansFrom s p) (Predicate.spansFrom s' p') := by
  induction h generalizing s s' with
  | nil => exact .cons depth .nil
  | @cons t t' ts ts' term _ ih =>
    have deeper : max s.depth t.depth ≤ max s'.depth t'.depth := by have := term.depth; omega
    refine .cons depth ?_
    unfold Span.and
    rw [isZero, Term.span, Term.span, term.isZero]
    split
    · exact ih (Nat.le_refl _) rfl
    · exact ih (Nat.add_le_add_left deeper 1) rfl

theorem spans (h : p.Within p') : List.Forall₂ (fun s s' : Span => s.depth ≤ s'.depth) p.spans p'.spans := by
  cases h with
  | nil => exact .nil
  | cons term rest => exact Within.spansFrom rest term.depth term.isZero

theorem spans_le (h : p.Within p') {n : Nat} (all : ∀ span ∈ p'.spans, span.depth ≤ n) : ∀ span ∈ p.spans, span.depth ≤ n := by
  have each := h.spans
  generalize p.spans = ss, p'.spans = ss' at each all
  induction each with
  | nil => exact nofun
  | cons first _ ih =>
    rw [List.forall_mem_cons] at all ⊢
    exact ⟨Nat.le_trans first all.1, ih all.2⟩

theorem depth_le (h : p.Within p') : p.depth ≤ p'.depth := by
  have each := List.rel_reverse h.spans
  unfold Predicate.depth
  rw [List.getLast?_eq_head?_reverse, List.getLast?_eq_head?_reverse]
  generalize p.spans.reverse = ss, p'.spans.reverse = ss' at each
  cases each with
  | nil => exact Nat.le_refl 0
  | cons last _ => exact last

theorem params (h : p.Within p') : p.params = p'.params := by
  induction h with
  | nil => rfl
  | cons term _ ih => exact congrArg₂ (· ++ ·) term.params ih

theorem patterns (h : p.Within p') (short : ∀ t ∈ p', t.isTooLong = false) : ∀ t ∈ p, t.isTooLong = false := by
  induction h with
  | nil => exact short
  | cons term _ ih =>
    rw [List.forall_mem_cons] at short ⊢
    exact ⟨term.isTooLong.trans short.1, ih short.2⟩

end Within

/-- A conjunction is as deep as the last of its spans. -/
theorem depth_le {p : Predicate} {n : Nat} (all : ∀ span ∈ p.spans, span.depth ≤ n) : p.depth ≤ n := by
  unfold depth
  cases last : p.spans.getLast? with
  | none => exact Nat.zero_le n
  | some span => exact all span (List.mem_of_getLast? last)

theorem le_depth_of_spansFrom {p : Predicate} {s : Span} (start : s.isZero = false) (some_ : ∀ t ∈ p, t.isZero = false) :
    ∃ span, (spansFrom s p).getLast? = some span ∧ s.depth + p.length ≤ span.depth := by
  induction p generalizing s with
  | nil => exact ⟨s, rfl, Nat.le_refl _⟩
  | cons t ts ih =>
    obtain ⟨here, later⟩ := List.forall_mem_cons.1 some_
    have both : s.and t.span = ⟨1 + max s.depth t.depth, false⟩ := by
      rw [Span.and, start, Term.span, here]
      rfl
    obtain ⟨span, last, deep⟩ := ih (s := s.and t.span) (by rw [both]) later
    refine ⟨span, ?_, ?_⟩
    · rw [spansFrom, List.getLast?_cons, last]
      rfl
    · have more : 1 + max s.depth t.depth + ts.length ≤ span.depth := by
        rw [both] at deep
        exact deep
      rw [List.length_cons]
      omega

/-- Without a constant that is false, each further term makes a conjunction deeper. -/
theorem le_depth_cons {t : Term} {ts : Predicate} (some_ : ∀ u ∈ t :: ts, u.isZero = false) :
    t.depth + ts.length ≤ Predicate.depth (t :: ts) := by
  obtain ⟨here, later⟩ := List.forall_mem_cons.1 some_
  obtain ⟨span, last, deep⟩ := le_depth_of_spansFrom (s := t.span) here later
  rw [depth, spans, last]
  exact deep

/-- Where no pattern is too long, none is reached. -/
theorem faults_of_short {p : Predicate} (short : ∀ t ∈ p, t.isTooLong = false) (read : Operand → Value) :
    p.faults read = false := by
  suffices p.reachesTooLong read = false by rw [faults, this, Bool.and_false]
  induction p with
  | nil => rfl
  | cons t ts ih =>
    rw [reachesTooLong, short t List.mem_cons_self, ih fun t mem => short t (List.mem_cons_of_mem _ mem), Bool.and_false]
    rfl

end Predicate

/-! ## Statements that fit -/

/-- The engine takes the statement, and no pattern by which it chooses rows is too long. -/
def Statement.Fits {a : Answer} (s : Statement a) : Prop := s.isWithinLimits = true ∧ ∀ t ∈ s.filter, t.isTooLong = false

instance {a : Answer} (s : Statement a) : Decidable s.Fits := inferInstanceAs (Decidable (_ ∧ _))

/-- The statements fit that read the rows of a conjunction. -/
abbrev Predicate.Fits (p : Predicate) : Prop := (Statement.count p).Fits

namespace Statement

variable {a : Answer} {s : Statement a} {p : Predicate} {cardinality : Cardinality}

theorem isWithinLimits_iff : s.isWithinLimits = true ↔ (∀ span ∈ s.filter.spans, span.depth ≤ limits.depth)
    ∧ s.depth ≤ limits.depth ∧ s.arguments ≤ limits.arguments ∧ s.params.length ≤ limits.values := by
  simp [isWithinLimits, and_assoc]

/-- A search for the rows of a short conjunction fits. -/
theorem fits_of_length (short : p.length + 3 ≤ limits.depth) (values : p.params.length ≤ limits.values)
    (patterns : ∀ t ∈ p, t.isTooLong = false) : p.Fits := by
  have depths : ∀ span ∈ p.spans, span.depth ≤ limits.depth := fun span mem =>
    Nat.le_trans (Predicate.depth_le_of_mem_spans mem) short
  have arguments : 2 ≤ limits.arguments := by decide
  exact ⟨isWithinLimits_iff.2 ⟨depths, Predicate.depth_le depths, arguments, values⟩, patterns⟩

theorem fits_insert (id body : String) (now : Int) : (insert id body now).Fits := ⟨rfl, fun _ mem => nomatch mem⟩

theorem fits_overwrite (id body : String) (now : Int) : (overwrite id body now).Fits := ⟨rfl, fun _ mem => nomatch mem⟩

theorem fits_findRaw {p : RawPredicate} {l : Listing} (values : p.params.length ≤ limits.values) : (findRaw p l).Fits :=
  ⟨isWithinLimits_iff.2 ⟨fun _ mem => (nomatch mem), show 1 ≤ limits.depth by decide, show 2 ≤ limits.arguments by decide,
    values⟩, fun _ mem => nomatch mem⟩

/-- The choice of the first row of a short conjunction fits. -/
theorem fits_delete_of_length (short : 2 * (p.length + 3) + 2 ≤ limits.depth) (values : p.params.length ≤ limits.values)
    (patterns : ∀ t ∈ p, t.isTooLong = false) : (delete p cardinality).Fits := by
  obtain ⟨within, -⟩ := fits_of_length (show p.length + 3 ≤ limits.depth by omega) values patterns
  obtain ⟨spans, -, arguments, -⟩ := isWithinLimits_iff.1 within
  have deep : p.depth ≤ p.length + 3 := Predicate.depth_le fun span => Predicate.depth_le_of_mem_spans
  have depth : targetDepth p cardinality ≤ 2 * (p.length + 3) + 2 := by cases cardinality <;> simp only [targetDepth] <;> omega
  exact ⟨isWithinLimits_iff.2 ⟨spans, Nat.le_trans depth short, arguments, values⟩, patterns⟩

/-- What is within the limits inside an expression is so by itself. -/
theorem Fits.many (fits : (delete p .one).Fits) : (delete p .many).Fits := by
  obtain ⟨within, patterns⟩ := fits
  obtain ⟨spans, depth, arguments, values⟩ := isWithinLimits_iff.1 within
  exact ⟨isWithinLimits_iff.2 ⟨spans, Predicate.depth_le spans, arguments, values⟩, patterns⟩

theorem targetDepth_le {p' : Predicate} (h : p.Within p') : targetDepth p cardinality ≤ targetDepth p' cardinality := by
  have := h.depth_le
  cases cardinality <;> simp only [targetDepth] <;> omega

theorem Fits.countTargets (fits : (delete p cardinality).Fits) : (countTargets p cardinality).Fits := fits

/-- A statement that is within another one fits if that one does. -/
theorem Fits.within {s' : Statement a} (fits : s'.Fits) (filter : s.filter.Within s'.filter) (depth : s.depth ≤ s'.depth)
    (arguments : s.arguments = s'.arguments) (params : s.params.length = s'.params.length) : s.Fits := by
  obtain ⟨within, patterns⟩ := fits
  obtain ⟨spans, deep, many, values⟩ := isWithinLimits_iff.1 within
  exact ⟨isWithinLimits_iff.2 ⟨filter.spans_le spans, Nat.le_trans depth deep, arguments ▸ many, params ▸ values⟩,
    filter.patterns patterns⟩

theorem Fits.delete_within {p' : Predicate} (h : p.Within p') (fits : (delete p' cardinality).Fits) : (delete p cardinality).Fits :=
  fits.within h (targetDepth_le h) rfl (congrArg List.length h.params)

/-- What is within the limits inside an expression is so in a search. -/
theorem Fits.reads (fits : (delete p cardinality).Fits) : p.Fits := by
  cases cardinality with
  | many => exact fits
  | one => exact fits.many

end Statement

namespace Predicate.Fits

variable {p : Predicate} (fits : p.Fits)

include fits

theorem find (l : Listing) : (Statement.find p l).Fits := fits

theorem fetch (cardinality : Cardinality) : (Statement.fetch p cardinality).Fits := fits

end Predicate.Fits

theorem Predicate.fits_nil : Predicate.Fits [] := by decide

theorem Predicate.Fits.within {p p' : Predicate} (h : p.Within p') (fits : p'.Fits) : p.Fits :=
  Statement.Fits.within fits h h.depth_le rfl (congrArg List.length h.params)

/-- The statements fit by which changes are made in place. -/
structure Changes.Fit (c : Changes) (p : Predicate) (cardinality : Cardinality) : Prop where
  search : ∀ s ∈ Statement.guard? c.guards p cardinality, s.Fits
  change : ∀ now, (Statement.change c p cardinality now).Fits

namespace Changes.Fit

variable {c : Changes} {p : Predicate} {cardinality : Cardinality} (fit : c.Fit p cardinality)

include fit

theorem delete : (Statement.delete p cardinality).Fits := by
  obtain ⟨within, patterns⟩ := fit.change 0
  obtain ⟨spans, depth, -, values⟩ := Statement.isWithinLimits_iff.1 within
  have arguments : 2 ≤ limits.arguments := by decide
  refine ⟨Statement.isWithinLimits_iff.2 ⟨spans, Nat.le_of_succ_le depth, arguments, Nat.le_trans ?_ values⟩, patterns⟩
  simp only [Statement.params, List.length_append]
  omega

/-- On operands that are no deeper, changes fit too. -/
theorem within {p' : Predicate} (h : p'.Within p) : c.Fit p' cardinality := by
  obtain ⟨search, change⟩ := fit
  have deep : Statement.targetDepth p' cardinality ≤ Statement.targetDepth p cardinality := Statement.targetDepth_le h
  refine ⟨fun s mem => ?_, fun now => (change now).within h (Nat.succ_le_succ deep) rfl ?_⟩
  · unfold Statement.guard? at mem search
    split at mem
    · cases mem
    · rename_i some_
      cases mem
      rw [if_neg some_] at search
      refine (search _ rfl).within h (Nat.add_le_add_right deep 4) rfl ?_
      simp only [Statement.params, h.params]
  · simp only [Statement.params, h.params]

theorem reads : p.Fits := fit.delete.reads

end Changes.Fit

/-- The statements fit by which an update without promoted paths is made. -/
def Update.Fit (p : Predicate) (cardinality : Cardinality) : Update → Prop
  | .change c => c.Fit p cardinality
  | .replace _ => p.Fits

/-- A promoted column is no deeper than the extraction that it stands for. -/
theorem Condition.within_term (column : String) (path : FieldPath) (condition : Condition) :
    (condition.term (.promoted column)).Within (condition.term (.extract path)) := by
  cases condition with
  | compare op operand => cases op <;> cases operand <;> exact ⟨by simp [term, compareTerm, Term.depth, Operand.depth], rfl, rfl, rfl⟩
  | member negated items =>
    cases items with
    | nil => exact ⟨Nat.le_refl _, rfl, rfl, rfl⟩
    | cons item rest =>
      refine ⟨?_, rfl, rfl, rfl⟩
      have deeper : (if (item :: rest).length = 1 then max 1 2 else 1) ≤ if (item :: rest).length = 1 then max 2 2 else 2 := by
        split <;> omega
      simp only [term, Term.depth, Operand.depth, List.length_map]
      exact Nat.add_le_add_left deeper _
  | present wanted => cases wanted <;> exact ⟨by simp [term, Term.depth, Operand.depth], rfl, rfl, rfl⟩
  | pattern regex => exact ⟨by simp [term, Term.depth, Operand.depth], rfl, rfl, rfl⟩

/-- Promotions make no filter deeper. -/
theorem Filter.within_predicate (f : Filter) (r : Resolver) : (f.predicate r).Within (f.predicate ⟨[]⟩) := by
  have same (t : Term) : t.Within t := ⟨Nat.le_refl _, rfl, rfl, rfl⟩
  have term (clause : Clause) (condition : Condition) : (condition.term (r.operand clause.field)).Within
      (condition.term ((⟨[]⟩ : Resolver).operand clause.field)) := by
    cases clause.field with
    | system c => exact same _
    | body path =>
      show (condition.term (if r.isPromoted path then .promoted path.column else .extract path)).Within
        (condition.term (.extract path))
      split
      · exact condition.within_term _ path
      · exact same _
  unfold Filter.predicate
  induction f.clauses with
  | nil => exact .nil
  | cons clause rest ih =>
    rw [List.flatMap_cons, List.flatMap_cons]
    refine List.rel_append ?_ ih
    rw [List.forall₂_map_left_iff, List.forall₂_map_right_iff, List.forall₂_same]
    exact fun condition _ => term clause condition

/-! ## Answers -/

namespace Database

variable {db : Database} {name : CollectionName} {r : Resolver} {a : Answer} {s : Statement a}

theorem faults_of_short (short : ∀ t ∈ s.filter, t.isTooLong = false) : db.faults name s = false := by
  have none : ((db.table? name.text).any fun t => t.rows.any fun row => s.filter.faults row.read) = false := by
    cases db.table? name.text with
    | none => rfl
    | some t =>
      rw [Option.any_some, List.any_eq_false]
      exact fun row _ => Bool.not_eq_true _ ▸ Predicate.faults_of_short short row.read
  unfold faults
  split
  · rfl
  · exact none

/-- A statement that fits has its answer. -/
theorem run_of_fits (fits : s.Fits) : db.run name r s = db.answer name r s := by
  rw [run, fits.1, faults_of_short fits.2]
  rfl

/-- A statement that is past a limit is refused. -/
theorem run_of_excess (excess : s.isWithinLimits = false) : db.run name r s = .error (.failure "statement too large") := by
  rw [run, excess]
  rfl

/-- Where the same faults stand in the way, two databases both refuse a statement, or each has its answer. -/
theorem run_congr {db' : Database} (same : db'.faults name s = db.faults name s) :
    (∃ e, db.run name r s = .error e ∧ db'.run name r s = .error e)
      ∨ (db.run name r s = db.answer name r s ∧ db'.run name r s = db'.answer name r s) := by
  unfold run
  rw [same]
  split
  · exact .inl ⟨_, rfl, rfl⟩
  · split
    · exact .inl ⟨_, rfl, rfl⟩
    · exact .inr ⟨rfl, rfl⟩

/-- The engine takes the statements that read the rows of a conjunction, and gets to no pattern that is too long. -/
def Takes (db : Database) (name : CollectionName) (p : Predicate) : Prop :=
  (Statement.count p).isWithinLimits = true ∧ db.faults name (Statement.count p) = false

namespace Takes

variable {p : Predicate} {cardinality : Cardinality}

theorem of_fits (fits : p.Fits) : db.Takes name p := ⟨fits.1, faults_of_short fits.2⟩

section
variable (takes : db.Takes name p)

include takes

theorem find (l : Listing) : db.run name r (.find p l) = db.answer name r (.find p l) := by
  have within : (Statement.find p l).isWithinLimits = true := takes.1
  have clear : db.faults name (Statement.find p l) = false := by
    unfold faults
    split
    · rfl
    · exact takes.2
  rw [run, within, clear]
  rfl

theorem count : db.run name r (.count p) = db.answer name r (.count p) := by
  rw [run, takes.1, takes.2]
  rfl

end

/-- A statement that has run shows it. -/
theorem of_run {x : a.Carrier × Database} (made : db.run name r s = .ok x) (filter : s.filter = p)
    (faults : db.faults name s = db.faults name (Statement.count p)) (depth : p.depth ≤ s.depth)
    (params : p.params.length ≤ s.params.length) : db.Takes name p := by
  unfold run at made
  split at made
  · cases made
  · rename_i within
    split at made
    · cases made
    · rename_i clear
      obtain ⟨spans, deep, -, values⟩ := Statement.isWithinLimits_iff.1 (by simpa using within)
      have arguments : 2 ≤ limits.arguments := by decide
      exact ⟨Statement.isWithinLimits_iff.2 ⟨filter ▸ spans, Nat.le_trans depth deep, arguments, Nat.le_trans params values⟩,
        faults ▸ Bool.eq_false_iff.2 clear⟩

theorem of_find {x : List Row × Database} (made : db.run name r (.find p .all) = .ok x) : db.Takes name p :=
  of_run made rfl rfl (Nat.le_refl _) (Nat.le_refl _)

theorem of_fetch {x : List Row × Database} (made : db.run name r (.fetch p cardinality) = .ok x) : db.Takes name p :=
  of_run made rfl rfl (Nat.le_refl _) (Nat.le_refl _)

theorem of_countTargets {x : Int × Database} (made : db.run name r (.countTargets p cardinality) = .ok x) : db.Takes name p := by
  refine of_run made rfl rfl ?_ (Nat.le_refl _)
  cases cardinality <;> simp only [Statement.depth, Statement.targetDepth] <;> omega

theorem of_guard {guards : List Guard} {x : Int × Database} (made : db.run name r (.guard guards p cardinality) = .ok x) :
    db.Takes name p := by
  refine of_run made rfl rfl ?_ ?_
  · cases cardinality <;> simp only [Statement.depth, Statement.targetDepth] <;> omega
  · rw [Statement.params, List.length_append]
    exact Nat.le_add_left _ _

end Takes

/-- A statement that does not fail has its answer. -/
theorem answer_of_run {x : a.Carrier × Database} (made : db.run name r s = .ok x) : db.answer name r s = .ok x := by
  unfold run at made
  split at made
  · cases made
  · split at made
    · cases made
    · exact made

end Database

end Dossier
