import Dossier.Proofs.Statement.Listing

/-!
# Names inside SQL

A field path is written into SQL as a JSON path between single quotes and as a column name between double ones. Each is one
token and stands for what was written (`FieldPath.lexemes?_literal`, `lexemes?_quoteName`), the engine reads the segments in
the JSON path, and different paths lead to different addresses of every document (`Tree.address?_injective`).
`FieldPath.spliced_of_parse` puts this together with what ancestors and overlaps are.
-/

namespace Dossier

open Text Sql Raw

/-! ## Quotes -/

section Quotes

variable {q : Char} {cs rest : List Char}

/-- A text with its delimiters doubled is read as the text. -/
theorem undouble_doubled (q : Char) (cs : List Char) : undouble q (doubled q cs) = cs := by
  induction cs with
  | nil => rfl
  | cons c cs ih =>
    by_cases same : c = q
    · subst same
      rw [doubled_cons_self, undouble, if_pos (by simp), ih]
    · rw [doubled_cons_of_ne same]
      generalize doubled q cs = ds at ih ⊢
      cases ds with
      | nil => rw [← ih]; rfl
      | cons d ds => rw [undouble, if_neg (by simp [same]), ih]

theorem lexeme?_quoteName (name : String) :
    (⟨.quotedName, (quoteName name).toList⟩ : Token).lexeme? = some (.quoted name true) := by
  rw [toList_quoteName]
  show some (Lexeme.quoted (String.ofList (undouble '"' (between _))) true) = _
  rw [between, List.drop_one, List.tail_cons, List.dropLast_concat, undouble_doubled, String.ofList_toList]

/-- A quoted name is one token before everything but a quote of its kind. -/
theorem tokens_quoteName (name : String) (ends : rest.head? ≠ some '"') :
    tokens ((quoteName name).toList ++ rest) = ⟨.quotedName, (quoteName name).toList⟩ :: tokens rest := by
  have formed := formed_quoteName name
  have whole := toList_quoteName name
  generalize (quoteName name).toList = written at formed whole ⊢
  refine tokens_of_stands (formed.stands fun d next => ?_)
  have apart : d ≠ '"' := fun same => ends (same ▸ next)
  rw [whole]
  simp [Token.takesIn, apart.symm]

/-- The lexemes of a text that is one token and holds no U+0000. -/
theorem lexemes?_of_token {text : String} {kind : TokenKind} {l : Lexeme} (whole : tokens text.toList = [⟨kind, text.toList⟩])
    (lexeme : (⟨kind, text.toList⟩ : Token).lexeme? = some l) (plain : '\x00' ∉ text.toList) :
    lexemes? text = some ([l], 0) := by
  rw [lexemes?, untilNul_of_not_mem plain, whole, lexemesFrom_cons _ lexeme]
  rfl

end Quotes

/-! ## Addresses -/

namespace Tree

/-- The value at an address, which tells the number of the member to take at each step. -/
def at? : List Nat → Tree → Option Tree
  | [], t => some t
  | i :: rest, object members => (members[i]?).bind fun m => at? rest m.2
  | _ :: _, _ => none

/-- The address that a list of keys leads to: at each step the first member under the key. -/
def address? : List String → Tree → Option (List Nat)
  | [], _ => some []
  | key :: rest, object members => do
    let i ← members.findIdx? fun m => stringText m.1 = key
    let m ← members[i]?
    return i :: (← address? rest m.2)
  | _ :: _, _ => none

variable {key : String} {keys others : List String} {members : List (List Char × Tree)} {t : Tree} {a : List Nat}

theorem member?_eq (key : String) (members : List (List Char × Tree)) :
    member? key members = (members.findIdx? fun m => stringText m.1 = key).bind fun i => members[i]?.map (·.2) := by
  induction members with
  | nil => rfl
  | cons m members ih =>
    rw [member?, List.findIdx?_cons]
    by_cases here : stringText m.1 = key
    · simp [here]
    · simp only [here, decide_false, Bool.false_eq_true, if_false, ih]
      cases members.findIdx? fun m => stringText m.1 = key <;> rfl

/-- What a list of keys finds stands at the address that it leads to. -/
theorem lookup?_eq (keys : List String) (t : Tree) : t.lookup? keys = (t.address? keys).bind fun a => t.at? a := by
  induction keys generalizing t with
  | nil => rfl
  | cons key keys ih =>
    cases t with
    | object members =>
      rw [lookup?, address?, child?, member?_eq]
      cases members.findIdx? fun m => stringText m.1 = key with
      | none => rfl
      | some i =>
        cases here : members[i]? with
        | none => simp [here]
        | some m =>
          simp only [Option.bind_some, here, Option.map_some, ih, Option.bind_eq_bind]
          cases m.2.address? keys with
          | none => rfl
          | some a => simp [at?, here]
    | null | bool | number | string | array => rfl

/-- The key at an address is the one that led there. -/
theorem stringText_of_findIdx? {i : Nat} {m : List Char × Tree} (found : (members.findIdx? fun m => stringText m.1 = key) = some i)
    (here : members[i]? = some m) : stringText m.1 = key := by
  obtain ⟨inside, passes, -⟩ := List.findIdx?_eq_some_iff_getElem.1 found
  rw [List.getElem?_eq_getElem inside, Option.some.injEq] at here
  simpa [here] using passes

/-- Lists of keys that lead to one address are equal. -/
theorem address?_injective (left : t.address? keys = some a) (right : t.address? others = some a) : keys = others := by
  induction keys generalizing t others a with
  | nil =>
    obtain rfl : [] = a := Option.some.inj left
    cases others with
    | nil => rfl
    | cons other others =>
      cases t with
      | object members => simp [address?, Option.bind_eq_some_iff] at right
      | null | bool | number | string | array => cases right
  | cons key keys ih =>
    cases t with
    | object members =>
      simp only [address?, Option.bind_eq_bind, Option.bind_eq_some_iff, Option.pure_def, Option.some.injEq] at left
      obtain ⟨i, found, m, here, a, below, rfl⟩ := left
      cases others with
      | nil => cases right
      | cons other others =>
        simp only [address?, Option.bind_eq_bind, Option.bind_eq_some_iff, Option.pure_def, Option.some.injEq] at right
        obtain ⟨j, found', m', here', a', below', same⟩ := right
        obtain ⟨rfl, rfl⟩ := List.cons.inj same
        obtain rfl : m = m' := Option.some.inj (here.symm.trans here')
        rw [← stringText_of_findIdx? found here, ← stringText_of_findIdx? found' here', ih below below']
    | null | bool | number | string | array => cases left

/-- What the engine finds along the keys stands at the address that they lead to. -/
theorem follow_eq_value_iff {found : Tree} : t.follow (keys.map PathStep.member) = .value found
    ↔ ∃ a, t.address? keys = some a ∧ t.at? a = some found := by
  rw [follow_members, lookup?_eq, ← Option.bind_eq_some_iff]
  cases (t.address? keys).bind fun a => t.at? a with
  | none => simp
  | some other => simp

end Tree

/-! ## Paths -/

/-- The first parts of a text are the front of it. -/
theorem intercalate_take_prefix (between : List Char) (parts : List (List Char)) (n : Nat) :
    List.intercalate between (parts.take n) <+: List.intercalate between parts := by
  induction parts generalizing n with
  | nil => simp
  | cons part parts ih =>
    cases n with
    | zero => simp
    | succ n =>
      rw [List.take_succ_cons]
      cases parts with
      | nil => simp
      | cons next parts =>
        cases n with
        | zero => simp [List.intercalate_cons_cons]
        | succ n =>
          have later := ih (n + 1)
          rw [List.take_succ_cons] at later ⊢
          rw [List.intercalate_cons_cons, List.intercalate_cons_cons, List.prefix_append_right_inj]
          exact later

namespace FieldPath

variable {p q a : FieldPath} {rest : List Char}

theorem eq_of_segments (same : p.segments = q.segments) : p = q := by
  cases p
  cases q
  cases same
  rfl

/-! ### The tokens -/

theorem toList_literal (p : FieldPath) : p.literal.toList = '\'' :: (p.jsonPath.toList ++ ['\'']) := by
  simp [literal, String.toList_append]

/-- A path between quotes is one token before everything but a quote. -/
theorem tokens_literal (p : FieldPath) (ends : rest.head? ≠ some '\'') :
    tokens (p.literal.toList ++ rest) = ⟨.string, p.literal.toList⟩ :: tokens rest := by
  rw [toList_literal]
  refine tokens_of_stands (t := ⟨.string, '\'' :: (p.jsonPath.toList ++ ['\''])⟩) ((formed_literal p).stands fun d next => ?_)
  exact beq_false_of_ne fun same => ends (same ▸ next)

theorem lexemes?_literal (p : FieldPath) : lexemes? p.literal = some ([.string p.jsonPath], 0) := by
  have whole : tokens (p.literal.toList ++ []) = _ := tokens_literal p (by simp)
  rw [List.append_nil, show tokens [] = [] by rw [tokens]] at whole
  refine lexemes?_of_token whole ?_ ?_
  · rw [toList_literal, lexeme?_literal]
  · simp [toList_literal, nul_not_mem_jsonPath p]

theorem lexemes?_column (p : FieldPath) : lexemes? (quoteName p.column) = some ([.quoted p.column true], 0) := by
  have whole : tokens ((quoteName p.column).toList ++ []) = _ := tokens_quoteName p.column (by simp)
  rw [List.append_nil, show tokens [] = [] by rw [tokens]] at whole
  exact lexemes?_of_token whole (lexeme?_quoteName p.column) (nul_not_mem_quoteName (nul_not_mem_column p))

/-! ### The ancestors -/

theorem mem_ancestors_iff : a ∈ p.ancestors ↔ a.segments <+: p.segments ∧ a ≠ p := by
  constructor
  · rw [ancestors, List.mem_map]
    rintro ⟨n, short, rfl⟩
    refine ⟨List.take_prefix _ _, fun same => ?_⟩
    have lengths := congrArg (·.segments.length) same
    simp only [upTo, List.length_take] at lengths
    have := List.mem_range.1 short
    omega
  · rintro ⟨leads, proper⟩
    have pos := List.length_pos_iff.2 a.nonempty
    have shorter : a.segments.length < p.segments.length := by
      refine Nat.lt_of_le_of_ne leads.length_le fun same => proper (eq_of_segments (leads.eq_of_length same))
    refine List.mem_map.2 ⟨a.segments.length - 1, List.mem_range.2 (by omega), eq_of_segments ?_⟩
    show p.segments.take (a.segments.length - 1 + 1) = a.segments
    rw [Nat.sub_add_cancel pos]
    exact (List.prefix_iff_eq_take.1 leads).symm

theorem overlaps_iff : p.overlaps q = true ↔ p = q ∨ p ∈ q.ancestors ∨ q ∈ p.ancestors := by
  rw [overlaps, Bool.or_eq_true, List.isPrefixOf_iff_prefix, List.isPrefixOf_iff_prefix, mem_ancestors_iff, mem_ancestors_iff]
  by_cases same : p = q
  · simp [same]
  · simp [same, Ne.symm same]

/-- The text of an ancestor is the front of the path's. -/
theorem exists_text_append (mem : a ∈ p.ancestors) : ∃ rest, p.text = a.text ++ rest := by
  obtain ⟨n, -, rfl⟩ := List.mem_map.1 mem
  obtain ⟨rest, text⟩ := intercalate_take_prefix ['.'] (p.segments.map String.toList) (n + 1)
  refine ⟨String.ofList rest, String.toList_injective ?_⟩
  simp only [FieldPath.text, joinWith, upTo, String.toList_append, String.toList_ofList, List.map_take]
  exact text.symm

/-- An ancestor is read from its text: a text is no longer than one it is the front of. -/
theorem parse_of_mem_ancestors {raw : String} (parsed : parse raw = .ok p) (mem : a ∈ p.ancestors) : parse a.text = .ok a := by
  obtain ⟨text, short⟩ := parse_eq_ok_iff.1 parsed
  obtain ⟨rest, whole⟩ := exists_text_append mem
  refine parse_eq_ok_iff.2 ⟨rfl, Nat.le_trans ?_ short⟩
  rw [← text, whole, String.utf8ByteSize_append]
  exact Nat.le_add_right ..

/-! ### The whole -/

/-- A path that is read from a text means itself wherever its names stand in SQL. Between single quotes it is one string, which
the engine reads as the parts of the text; along them it finds what stands at their address, and no other text leads to the same
address of a document. Its column's name is one name. Its ancestors are the paths that their texts are read as, and it overlaps
itself, its ancestors and the paths that it is an ancestor of. -/
theorem spliced_of_parse {raw other : String} (left : parse raw = .ok p) (right : parse other = .ok q) :
    ((lexemes? p.literal = some ([.string p.jsonPath], 0)
        ∧ ∀ rest : List Char, rest.head? ≠ some '\'' →
          tokens (p.literal.toList ++ rest) = ⟨.string, p.literal.toList⟩ :: tokens rest)
      ∧ lexemes? (quoteName p.column) = some ([.quoted p.column true], 0)
      ∧ ∀ rest : List Char, rest.head? ≠ some '"' →
          tokens ((quoteName p.column).toList ++ rest) = ⟨.quotedName, (quoteName p.column).toList⟩ :: tokens rest)
    ∧ (p.segments = (splitDots raw.toList).map String.ofList
      ∧ PathStep.parse p.jsonPath = some (p.segments.map .member)
      ∧ ∀ t : Tree, (∀ found, t.follow (p.segments.map .member) = .value found
          ↔ ∃ a, t.address? p.segments = some a ∧ t.at? a = some found)
        ∧ ∀ a, t.address? p.segments = some a → t.address? q.segments = some a → raw = other)
    ∧ (∀ a ∈ p.ancestors, parse a.text = .ok a)
    ∧ (p.overlaps q = true ↔ p = q ∨ p ∈ q.ancestors ∨ q ∈ p.ancestors) := by
  have text := (parse_eq_ok_iff.1 left).1
  have otherText := (parse_eq_ok_iff.1 right).1
  refine ⟨⟨⟨lexemes?_literal p, fun rest => tokens_literal p⟩, lexemes?_column p, fun rest => tokens_quoteName p.column⟩,
    ⟨?_, p.parse_jsonPath, fun t => ⟨fun found => Tree.follow_eq_value_iff, fun a here there => ?_⟩⟩,
    fun a mem => parse_of_mem_ancestors left mem, overlaps_iff⟩
  · rw [← text, splitDots_text]
  · rw [← text, ← otherText, eq_of_segments (Tree.address?_injective here there)]

theorem spliced_of_parse_letters :
    (parse "maß.b-1" = .ok ⟨["maß", "b-1"], by decide, by decide⟩ ∧ parse "maß" = .ok ⟨["maß"], by decide, by decide⟩)
    ∧ lexemes? "'$.\"maß\".\"b-1\"'" = some ([.string "$.\"maß\".\"b-1\""], 0)
    ∧ lexemes? "\"maß__b-1\"" = some ([.quoted "maß__b-1" true], 0)
    ∧ overlaps ⟨["maß", "b-1"], by decide, by decide⟩ ⟨["maß"], by decide, by decide⟩ = true := by
  have left : parse "maß.b-1" = .ok ⟨["maß", "b-1"], by decide, by decide⟩ := parse_eq_ok_iff.2 ⟨by decide, by decide⟩
  have right : parse "maß" = .ok ⟨["maß"], by decide, by decide⟩ := parse_eq_ok_iff.2 ⟨by decide, by decide⟩
  obtain ⟨⟨⟨literal, -⟩, column, -⟩, -, -, overlapping⟩ := spliced_of_parse left right
  exact ⟨⟨left, right⟩, literal, column, overlapping.2 (.inr (.inr (by decide)))⟩

end FieldPath

/-! ## Numbers as fields -/

theorem Text.utf8ByteSize_ofList_le (cs : List Char) : (String.ofList cs).utf8ByteSize ≤ 4 * cs.length := by
  induction cs with
  | nil => exact Nat.le_refl 0
  | cons c cs ih =>
    have here := c.utf8Size_le_four
    rw [String.ofList_cons, String.utf8ByteSize_append, String.utf8ByteSize_singleton, List.length_cons]
    omega

namespace Listing

theorem isDigit_of_mem_natText {k : Nat} {c : Char} (mem : c ∈ (natText k).toList) : c.isDigit = true := by
  rw [natText, String.toList_ofList] at mem
  exact Nat.isDigit_of_mem_toDigits (by decide) (by decide) mem

theorem natText_inj {j k : Nat} (same : natText j = natText k) : j = k := by
  have read := numberLexeme?_natText j
  rw [same, numberLexeme?_natText] at read
  exact (Lexeme.whole.inj (Option.some.inj read)).symm

/-- A number is no name that every document has. -/
theorem natText_ne (k : Nat) : ∀ name ∈ ["_id", "id", "created_at", "updated_at"], natText k ≠ name := by
  rintro name mem same
  have letters : ∀ name ∈ ["_id", "id", "created_at", "updated_at"], ∃ c ∈ name.toList, c.isDigit = false := by
    simp only [List.forall_mem_cons]
    exact ⟨⟨'d', by decide, rfl⟩, ⟨'d', by decide, rfl⟩, ⟨'d', by decide, rfl⟩, ⟨'d', by decide, rfl⟩, by simp⟩
  obtain ⟨c, there, no⟩ := letters name mem
  exact absurd (isDigit_of_mem_natText (same ▸ there)) (by rw [no]; decide)

end Listing

/-- A number is a path of one segment. -/
theorem FieldPath.parse_natText {k : Nat} (short : k < 1000) :
    ∃ path, parse (Listing.natText k) = .ok path ∧ path.segments = [Listing.natText k] := by
  have chars : (Listing.natText k).toList = Nat.toDigits 10 k := by rw [Listing.natText, String.toList_ofList]
  have segment : IsSegment (Listing.natText k) := by
    refine ⟨chars ▸ Nat.toDigits_ne_nil, List.all_eq_true.2 fun c mem => ?_⟩
    have digit := Listing.isDigit_of_mem_natText mem
    have ascii : isAscii c = true := by
      simp only [Char.isDigit, Bool.and_eq_true, decide_eq_true_eq, UInt32.le_iff_toNat_le] at digit
      have small : c.toNat ≤ 57 := digit.2
      exact decide_eq_true (by omega)
    simp [isSegmentChar, isAlphanumeric, ascii, Char.isAlphanum, digit]
  have room : (Listing.natText k).utf8ByteSize ≤ FieldPath.lengthLimit := by
    have few : (Nat.toDigits 10 k).length ≤ 128 :=
      (Nat.length_toDigits_le_iff (by decide) (by decide)).2 (Nat.lt_of_lt_of_le short (by decide))
    have bytes : (Listing.natText k).utf8ByteSize ≤ 4 * (Nat.toDigits 10 k).length := utf8ByteSize_ofList_le _
    exact Nat.le_trans bytes (Nat.mul_le_mul_left 4 few)
  refine ⟨⟨[Listing.natText k], List.cons_ne_nil _ _, List.forall_mem_singleton.2 segment⟩, ?_, rfl⟩
  refine FieldPath.parse_eq_ok_iff.2 ⟨?_, room⟩
  rw [FieldPath.text, joinWith, List.map_singleton, List.intercalate_singleton, String.ofList_toList]

end Dossier
