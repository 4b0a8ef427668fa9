import Dossier.Error
import Dossier.Text.Letter

/-!
# Field paths

A field path names a place inside a document: one or more segments of letters, digits, `_` and
`-`, written with dots between them. Its segments are all that callers can write into SQL text, as
the JSON path `$."a"."b"` and as the column name `a__b`; no segment holds a quote, so neither text
needs an escape. Two paths overlap when one is a prefix of the other.
-/

namespace Dossier

open Text

/-- The characters of a segment. -/
def isSegmentChar (c : Char) : Bool := isAlphanumeric c || c == '_' || c == '-'

/-- A segment is not empty and has only segment characters. -/
def IsSegment (s : String) : Prop := s.toList ≠ [] ∧ s.toList.all isSegmentChar = true

instance (s : String) : Decidable (IsSegment s) := inferInstanceAs (Decidable (_ ∧ _))

/-- A path into a document, from the outermost segment on. -/
structure FieldPath where
  segments : List String
  nonempty : segments ≠ []
  plain : ∀ s ∈ segments, IsSegment s
deriving DecidableEq

/-- The parts of a text between its dots. -/
def splitDots : List Char → List (List Char)
  | [] => [[]]
  | c :: cs =>
    if c = '.' then [] :: splitDots cs
    else match splitDots cs with
      | [] => [[c]]
      | part :: rest => (c :: part) :: rest

/-- The parts with a text between them. -/
def joinWith (between : String) (parts : List String) : String :=
  String.ofList (List.intercalate between.toList (parts.map String.toList))

section
variable {part : List Char}

theorem splitDots_ne_nil (cs : List Char) : splitDots cs ≠ [] := by
  cases cs with
  | nil => simp [splitDots]
  | cons c cs =>
    rw [splitDots]
    split
    · simp
    · split <;> simp

theorem splitDots_append (before after : List Char) :
    splitDots (before ++ '.' :: after) = splitDots before ++ splitDots after := by
  induction before with
  | nil => simp [splitDots]
  | cons c before ih =>
    obtain ⟨part, rest, split⟩ := List.exists_cons_of_ne_nil (splitDots_ne_nil before)
    rw [split] at ih
    rw [List.cons_append, splitDots, splitDots, ih, split]
    split <;> rfl

theorem splitDots_of_not_mem (plain : '.' ∉ part) : splitDots part = [part] := by
  induction part with
  | nil => rfl
  | cons c part ih =>
    rw [List.mem_cons, not_or] at plain
    rw [splitDots, if_neg (Ne.symm plain.1), ih plain.2]

/-- The parts of a text with the dots between them are the text. -/
theorem intercalate_splitDots (cs : List Char) : List.intercalate ['.'] (splitDots cs) = cs := by
  induction cs with
  | nil => rfl
  | cons c cs ih =>
    obtain ⟨part, rest, split⟩ := List.exists_cons_of_ne_nil (splitDots_ne_nil cs)
    rw [splitDots]
    split
    · rename_i point
      rw [split, List.intercalate_cons_cons, ← split, ih, point]
      rfl
    · rw [split]
      rw [split] at ih
      cases rest with
      | nil =>
        rw [List.intercalate_singleton] at ih ⊢
        rw [ih]
      | cons next others =>
        rw [List.intercalate_cons_cons] at ih ⊢
        simp only [List.cons_append]
        rw [ih]

/-- Parts without dots are those of the text that they make with dots between them. -/
theorem splitDots_intercalate {parts : List (List Char)} (some_ : parts ≠ []) (plain : ∀ part ∈ parts, '.' ∉ part) :
    splitDots (List.intercalate ['.'] parts) = parts := by
  induction parts with
  | nil => exact absurd rfl some_
  | cons part rest ih =>
    obtain ⟨here, later⟩ := List.forall_mem_cons.1 plain
    cases rest with
    | nil => rw [List.intercalate_singleton, splitDots_of_not_mem here]
    | cons next others =>
      rw [List.intercalate_cons_cons, List.append_assoc, List.singleton_append, splitDots_append,
        splitDots_of_not_mem here, ih (by simp) later, List.singleton_append]

theorem IsSegment.point_not_mem {s : String} (h : IsSegment s) : '.' ∉ s.toList := fun mem =>
  absurd (List.all_eq_true.1 h.2 _ mem) (by decide)

end

namespace FieldPath

/-- The most bytes that a path may have. -/
def lengthLimit : Nat := 512

/-- The dotted text. -/
def text (p : FieldPath) : String := joinWith "." p.segments

/-- The first segment that is none, as a fault. -/
def segmentFault? : List String → Option PathFault
  | [] => none
  | s :: rest =>
    if s.toList = [] then some .emptySegment
    else if s.toList.all isSegmentChar then segmentFault? rest
    else some .badCharacter

theorem plain_of_segmentFault? {segments : List String} (h : segmentFault? segments = none) :
    ∀ s ∈ segments, IsSegment s := by
  induction segments with
  | nil => simp
  | cons s rest ih =>
    unfold segmentFault? at h
    split at h
    · simp at h
    · split at h
      · intro t ht
        rcases List.mem_cons.1 ht with rfl | hr
        · exact ⟨‹_›, ‹_›⟩
        · exact ih h t hr
      · simp at h

theorem segmentFault?_of_plain {segments : List String} (plain : ∀ s ∈ segments, IsSegment s) :
    segmentFault? segments = none := by
  induction segments with
  | nil => rfl
  | cons s rest ih =>
    obtain ⟨here, later⟩ := List.forall_mem_cons.1 plain
    rw [segmentFault?, if_neg here.1, if_pos here.2, ih later]

/-- Reads a dotted text. -/
def parse (raw : String) : Except CompileError FieldPath :=
  if raw.toList = [] then .error (.invalidPath raw .empty)
  else if lengthLimit < raw.utf8ByteSize then .error (.invalidPath raw .tooLong)
  else
    let segments := (splitDots raw.toList).map String.ofList
    match h : segmentFault? segments with
    | some fault => .error (.invalidPath raw fault)
    | none =>
      if ne : segments ≠ [] then .ok ⟨segments, ne, plain_of_segmentFault? h⟩
      else .error (.invalidPath raw .empty)

theorem splitDots_text (p : FieldPath) : (splitDots p.text.toList).map String.ofList = p.segments := by
  rw [text, joinWith, String.toList_ofList, show ".".toList = ['.'] from rfl, splitDots_intercalate]
  · simp
  · simpa using p.nonempty
  · intro part mem
    obtain ⟨s, segment, rfl⟩ := List.mem_map.1 mem
    exact (p.plain s segment).point_not_mem

/-- The paths that are read: the segments with dots between them, in at most `lengthLimit` bytes. -/
theorem parse_eq_ok_iff {raw : String} {p : FieldPath} :
    parse raw = .ok p ↔ p.text = raw ∧ raw.utf8ByteSize ≤ lengthLimit := by
  constructor
  · intro h
    unfold parse at h
    split at h
    · cases h
    split at h
    · cases h
    rename_i short
    simp only at h
    split at h
    · cases h
    split at h
    · cases h
      refine ⟨?_, Nat.le_of_not_lt short⟩
      simp [text, joinWith, Function.comp_def, show ".".toList = ['.'] from rfl, intercalate_splitDots]
    · cases h
  · rintro ⟨rfl, short⟩
    have segments := splitDots_text p
    have some_ : p.text.toList ≠ [] := fun empty => by
      rw [empty] at segments
      have plain := p.plain
      rw [← segments] at plain
      exact (plain "" (by simp [splitDots])).1 rfl
    unfold parse
    rw [if_neg some_, if_neg (Nat.not_lt.2 short)]
    simp only
    split
    · rename_i fault eq
      rw [segments, segmentFault?_of_plain p.plain] at eq
      cases eq
    · rw [dif_pos (segments ▸ p.nonempty)]
      cases p
      simp only [Except.ok.injEq, FieldPath.mk.injEq]
      exact segments

/-- The outermost segment. -/
def head (p : FieldPath) : String := p.segments.head p.nonempty

/-- The innermost segment. -/
def leaf (p : FieldPath) : String := p.segments.getLast p.nonempty

/-- The path has more than one segment. -/
def isNested (p : FieldPath) : Bool := 1 < p.segments.length

/-- The first `n + 1` segments. -/
def upTo (p : FieldPath) (n : Nat) : FieldPath where
  segments := p.segments.take (n + 1)
  nonempty := by
    have ne := p.nonempty
    cases h : p.segments with
    | nil => exact absurd h ne
    | cons s rest => simp
  plain := fun s h => p.plain s (List.mem_of_mem_take h)

/-- The paths that this one passes through, outermost first. -/
def ancestors (p : FieldPath) : List FieldPath :=
  (List.range (p.segments.length - 1)).map p.upTo

/-- One path is a prefix of the other. -/
def overlaps (p q : FieldPath) : Bool :=
  p.segments.isPrefixOf q.segments || q.segments.isPrefixOf p.segments

/-- The JSON path of the engine, `$."a"."b"`. -/
def jsonPath (p : FieldPath) : String :=
  String.ofList ('$' :: p.segments.flatMap fun s => '.' :: '"' :: s.toList ++ ['"'])

/-- The JSON path as an SQL string literal. -/
def literal (p : FieldPath) : String := "'" ++ p.jsonPath ++ "'"

/-- The column that holds the path's value once it is promoted. -/
def column (p : FieldPath) : String := joinWith "__" p.segments

theorem overlaps_comm (p q : FieldPath) : p.overlaps q = q.overlaps p := Bool.or_comm ..

@[simp] theorem overlaps_self (p : FieldPath) : p.overlaps p = true := by simp [overlaps]

end FieldPath

end Dossier
