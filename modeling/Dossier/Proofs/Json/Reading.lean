import Dossier.Proofs.Json.Writing

/-!
# Reading what was written

`Tree.read?_text`: a tree of which all strings and numbers are of the grammar reads back as itself from its
text, unless it nests more than `depthLimit` containers. The text is first split into tokens
(`Tree.scan_chars`), then the tokens are taken one by one with the open containers on a stack
(`Tree.foldlM_tokens`).
-/

namespace Dossier

open Text Decimal

namespace Tree

mutual
/-- The tokens of a written tree. -/
def tokens : Tree → List Token
  | null => [.word "null".toList]
  | bool true => [.word "true".toList]
  | bool false => [.word "false".toList]
  | number text => [.word text]
  | string raw => [.string raw]
  | array items => .mark '[' :: (itemTokens items ++ [.mark ']'])
  | object members => .mark '{' :: (memberTokens members ++ [.mark '}'])

/-- The tokens of items with commas between them. -/
def itemTokens : List Tree → List Token
  | [] => []
  | [t] => tokens t
  | t :: rest => tokens t ++ .mark ',' :: itemTokens rest

/-- The tokens of members with commas between them. -/
def memberTokens : List (List Char × Tree) → List Token
  | [] => []
  | [(key, t)] => .string key :: .mark ':' :: tokens t
  | (key, t) :: rest => .string key :: .mark ':' :: (tokens t ++ .mark ',' :: memberTokens rest)
end

mutual
/-- The strings and numbers of the tree are of the JSON grammar. -/
def isGrammatical : Tree → Bool
  | number text => isNumber text
  | string raw => isStringBody raw
  | array items => areGrammatical items
  | object members => membersGrammatical members
  | _ => true

/-- All items are of the grammar. -/
def areGrammatical : List Tree → Bool
  | [] => true
  | t :: rest => isGrammatical t && areGrammatical rest

/-- All keys and values are of the grammar. -/
def membersGrammatical : List (List Char × Tree) → Bool
  | [] => true
  | (key, t) :: rest => isStringBody key && isGrammatical t && membersGrammatical rest
end

/-! ## Splitting into tokens -/

/-- A character of a word: neither blank, quote nor mark. -/
def isWordChar (c : Char) : Bool := !isSpace c && c != '"' && !isMark c

/-- What may follow a word: nothing, or a mark. -/
def Delimited (rest : List Char) : Prop := ∀ c ∈ rest.head?, isMark c = true

theorem delimited_cons {c : Char} {rest : List Char} (h : isMark c = true) : Delimited (c :: rest) := by
  simpa [Delimited] using h

theorem isMark_eq {c : Char} (h : isMark c = true) : isSpace c = false ∧ c ≠ '"' := by
  have mem : c ∈ "[]\x7b\x7d,:".toList := by simpa [isMark] using h
  simp at mem
  rcases mem with rfl | rfl | rfl | rfl | rfl | rfl <;> decide

theorem scan_mark {c : Char} (h : isMark c = true) (rest : List Char) :
    scan .between (c :: rest) = (scan .between rest).map (.mark c :: ·) := by
  obtain ⟨space, quote⟩ := isMark_eq h
  simp [scan, space, quote, h]

theorem scan_inWord {w : List Char} (word : ∀ c ∈ w, isWordChar c = true) {rest : List Char}
    (stop : Delimited rest) (read : List Char) :
    scan (.inWord read) (w ++ rest) = (scan .between rest).map (.word (read.reverse ++ w) :: ·) := by
  induction w generalizing read with
  | nil =>
    cases rest with
    | nil => simp [scan]
    | cons c rest =>
      have mark : isMark c = true := by simpa [Delimited] using stop
      obtain ⟨space, quote⟩ := isMark_eq mark
      rw [scan_mark mark]
      simp [scan, space, quote, mark, Function.comp_def]
  | cons c w ih =>
    have plain := word c (by simp)
    simp only [isWordChar, Bool.and_eq_true, Bool.not_eq_true', bne_iff_ne] at plain
    rw [List.cons_append, scan, if_neg (by simp [plain.1.1]), if_neg plain.1.2, if_neg (by simp [plain.2]),
      ih (fun d hd => word d (List.mem_cons_of_mem _ hd))]
    simp

theorem scan_word {w : List Char} (ne : w ≠ []) (word : ∀ c ∈ w, isWordChar c = true) {rest : List Char}
    (stop : Delimited rest) :
    scan .between (w ++ rest) = (scan .between rest).map (.word w :: ·) := by
  cases w with
  | nil => exact absurd rfl ne
  | cons c w =>
    have plain := word c (by simp)
    simp only [isWordChar, Bool.and_eq_true, Bool.not_eq_true', bne_iff_ne] at plain
    rw [List.cons_append, scan, if_neg (by simp [plain.1.1]), if_neg plain.1.2, if_neg (by simp [plain.2]),
      scan_inWord (fun d hd => word d (List.mem_cons_of_mem _ hd)) stop]
    rfl

theorem isHex_ne {c : Char} (h : isHex c = true) : c ≠ '"' ∧ c ≠ '\\' := by
  constructor <;> (rintro rfl; revert h; decide)

theorem scan_inString {raw : List Char} (body : isStringBody raw = true) (rest read : List Char) :
    scan (.inString read) (raw ++ '"' :: rest) =
      (scan .between rest).map (.string (read.reverse ++ raw) :: ·) := by
  fun_induction isStringBody raw generalizing read with
  | case1 => simp [scan]
  | case2 a b c d raw ih =>
    simp only [Bool.and_eq_true] at body
    obtain ⟨⟨⟨⟨ha, hb⟩, hc⟩, hd⟩, body⟩ := body
    simp [scan, isHex_ne ha, isHex_ne hb, isHex_ne hc, isHex_ne hd, ih body]
  | case3 c raw _ ih =>
    simp only [Bool.and_eq_true] at body
    simp [scan, ih body.2]
  | case4 c raw _ _ ih =>
    simp only [Bool.and_eq_true, bne_iff_ne] at body
    obtain ⟨⟨⟨slash, quote⟩, _⟩, body⟩ := body
    simp [scan, slash, quote, ih body]

theorem scan_quoted {raw : List Char} (body : isStringBody raw = true) (rest : List Char) :
    scan .between (quoted raw ++ rest) = (scan .between rest).map (.string raw :: ·) := by
  have := scan_inString body rest []
  simpa [quoted, scan, isSpace] using this

theorem digits?_eq_some {cs ds rest : List Char} (h : digits? cs = some (ds, rest)) :
    cs = ds ++ rest ∧ ∀ c ∈ ds, c.isDigit = true := by
  have whole := List.takeWhile_append_dropWhile (p := Char.isDigit) (l := cs)
  have digits := List.all_takeWhile (p := Char.isDigit) (l := cs)
  unfold digits? at h
  generalize cs.takeWhile Char.isDigit = front at h whole digits
  cases front with
  | nil => simp at h
  | cons d front =>
    simp only [Option.some.injEq, Prod.mk.injEq] at h
    obtain ⟨rfl, rfl⟩ := h
    exact ⟨whole.symm, by simpa using digits⟩

theorem isWordChar_of_isDigit {c : Char} (h : c.isDigit = true) : isWordChar c = true := by
  have range : 48 ≤ c.toNat ∧ c.toNat ≤ 57 := by simpa [Char.isDigit, UInt32.le_iff_toNat_le] using h
  have other : ∀ d : Char, d.toNat < 48 ∨ 57 < d.toNat → c ≠ d := by rintro d out rfl; omega
  simp [isWordChar, isSpace, isMark, other ' ', other '\t', other '\n', other '\r', other '"', other '[', other ']',
    other '\x7b', other '\x7d', other ',', other ':']

theorem isWordChar_digits {cs ds rest : List Char} (h : digits? cs = some (ds, rest))
    (tail : ∀ c ∈ rest, isWordChar c = true) : ∀ c ∈ cs, isWordChar c = true := by
  obtain ⟨rfl, digits⟩ := digits?_eq_some h
  exact fun c hc => (List.mem_append.1 hc).elim (fun h => isWordChar_of_isDigit (digits c h)) (tail c)

/-- An exponent has only letters, signs and digits. -/
theorem isWordChar_of_isExponent {cs : List Char} (h : isExponent cs = true) : ∀ c ∈ cs, isWordChar c = true := by
  have letter : ∀ e : Char, (e == 'e' || e == 'E') = true → isWordChar e = true := by
    intro e he
    simp only [Bool.or_eq_true, beq_iff_eq] at he
    rcases he with rfl | rfl <;> decide
  have ending : ∀ rest : List Char, (digits? rest).any (·.2.isEmpty) = true → ∀ c ∈ rest, isWordChar c = true := by
    intro rest hr
    cases hd : digits? rest with
    | none => simp [hd] at hr
    | some split =>
      obtain ⟨ds, after⟩ := split
      obtain rfl : after = [] := by simpa [hd] using hr
      exact isWordChar_digits hd (by simp)
  unfold isExponent at h
  split at h
  · simp
  · obtain ⟨he, hr⟩ := Bool.and_eq_true_iff.1 h
    exact List.forall_mem_cons.2 ⟨letter _ he, List.forall_mem_cons.2 ⟨by decide, ending _ hr⟩⟩
  · obtain ⟨he, hr⟩ := Bool.and_eq_true_iff.1 h
    exact List.forall_mem_cons.2 ⟨letter _ he, List.forall_mem_cons.2 ⟨by decide, ending _ hr⟩⟩
  · obtain ⟨he, hr⟩ := Bool.and_eq_true_iff.1 h
    exact List.forall_mem_cons.2 ⟨letter _ he, ending _ hr⟩

theorem isWordChar_of_isFraction {cs : List Char} (h : isFraction cs = true) : ∀ c ∈ cs, isWordChar c = true := by
  unfold isFraction at h
  split at h
  · split at h
    · rename_i hd
      intro c hc
      rcases List.mem_cons.1 hc with rfl | hc
      · decide
      · exact isWordChar_digits hd (isWordChar_of_isExponent h) c hc
    · simp at h
  · exact isWordChar_of_isExponent h

theorem isWordChar_of_isUnsigned {cs : List Char} (h : isUnsigned cs = true) : ∀ c ∈ cs, isWordChar c = true := by
  unfold isUnsigned at h
  split at h
  · exact isWordChar_digits ‹_› (isWordChar_of_isFraction h)
  · simp at h
  · exact isWordChar_digits ‹_› (isWordChar_of_isFraction h)
  · simp at h

theorem isWordChar_of_isNumber {cs : List Char} (h : isNumber cs = true) : ∀ c ∈ cs, isWordChar c = true := by
  unfold isNumber at h
  split at h
  · intro c hc
    rcases List.mem_cons.1 hc with rfl | hc
    · decide
    · exact isWordChar_of_isUnsigned h c hc
  · exact isWordChar_of_isUnsigned h

theorem isNumber_ne_nil {cs : List Char} (h : isNumber cs = true) : cs ≠ [] := by
  rintro rfl; simp [isNumber, isUnsigned, digits?] at h

mutual
theorem scan_chars (t : Tree) (good : t.isGrammatical = true) {rest : List Char} (stop : Delimited rest) :
    scan .between (t.chars ++ rest) = (scan .between rest).map (t.tokens ++ ·) := by
  cases t with
  | null => exact scan_word (by decide) (List.all_eq_true.1 (by decide)) stop
  | bool b => cases b <;> exact scan_word (by decide) (List.all_eq_true.1 (by decide)) stop
  | number text => exact scan_word (isNumber_ne_nil good) (isWordChar_of_isNumber good) stop
  | string raw => exact scan_quoted good rest
  | array items =>
    have split : (array items).chars ++ rest = '[' :: (itemChars items ++ ']' :: rest) := by simp [chars]
    rw [split, scan_mark (by decide), scan_itemChars items good (delimited_cons (by decide)), scan_mark (by decide)]
    simp [tokens, Function.comp_def]
  | object members =>
    have split : (object members).chars ++ rest = '\x7b' :: (memberChars members ++ '\x7d' :: rest) := by
      simp [chars]
    rw [split, scan_mark (by decide), scan_memberChars members good (delimited_cons (by decide)),
      scan_mark (by decide)]
    simp [tokens, Function.comp_def]

theorem scan_itemChars (items : List Tree) (good : areGrammatical items = true) {rest : List Char}
    (stop : Delimited rest) :
    scan .between (itemChars items ++ rest) = (scan .between rest).map (itemTokens items ++ ·) := by
  match items with
  | [] => simp [itemChars, itemTokens]
  | [t] =>
    simp only [areGrammatical, Bool.and_true] at good
    exact scan_chars t good stop
  | t :: u :: more =>
    rw [areGrammatical, Bool.and_eq_true] at good
    rw [itemChars, itemTokens, List.append_assoc, List.cons_append, scan_chars t good.1 (delimited_cons (by decide)),
      scan_mark (by decide), scan_itemChars (u :: more) good.2 stop]
    · simp [Function.comp_def]
    · simp
    · simp

theorem scan_memberChars (members : List (List Char × Tree)) (good : membersGrammatical members = true)
    {rest : List Char} (stop : Delimited rest) :
    scan .between (memberChars members ++ rest) = (scan .between rest).map (memberTokens members ++ ·) := by
  match members with
  | [] => simp [memberChars, memberTokens]
  | [(key, t)] =>
    simp only [membersGrammatical, Bool.and_true, Bool.and_eq_true] at good
    rw [memberChars, memberTokens, List.append_assoc, List.cons_append, scan_quoted good.1, scan_mark (by decide),
      scan_chars t good.2 stop]
    simp [Function.comp_def]
  | (key, t) :: m :: more =>
    simp only [membersGrammatical, Bool.and_eq_true] at good
    rw [memberChars, memberTokens, List.append_assoc, List.append_assoc, List.cons_append, List.cons_append,
      scan_quoted good.1.1, scan_mark (by decide), scan_chars t good.1.2 (delimited_cons (by decide)),
      scan_mark (by decide), scan_memberChars (m :: more) (by simp [membersGrammatical, good.2]) stop]
    · simp [Function.comp_def]
    · simp
    · simp
end

/-! ## Reading the tokens -/

/-- A value begins with a token that closes nothing. -/
theorem tokens_eq_cons (t : Tree) : ∃ first more, t.tokens = first :: more ∧ first ≠ .mark ']' := by
  cases t with
  | bool b => cases b <;> exact ⟨_, _, rfl, by decide⟩
  | null | number | string | array | object => exact ⟨_, _, rfl, by simp⟩

theorem step_firstItem {token : Token} (h : token ≠ .mark ']') (stack : List Frame) :
    Reading.step (.expecting .firstItem stack) token = Reading.value stack token := by
  unfold Reading.step
  split <;> simp_all

theorem wordTree?_number {text : List Char} (h : isNumber text = true) :
    Reading.wordTree? text = some (number text) := by
  have differs : ∀ w : List Char, isNumber w = false → text ≠ w := by rintro w hw rfl; simp [hw] at h
  rw [Reading.wordTree?, if_neg (differs _ (by decide)), if_neg (differs _ (by decide)), if_neg (differs _ (by decide)),
    if_pos h]

section
open Reading
variable (items : List Tree) (members : List (List Char × Tree)) (t : Tree) (raw : List Char) (rest : List Frame)

theorem complete_array :
    complete t (.array items :: rest) = some (.expecting .separator (.array (t :: items) :: rest)) := rfl

theorem complete_member : complete t (.member members raw :: rest)
    = some (.expecting .separator (.object ((raw, t) :: members) :: rest)) := rfl

theorem step_colon : step (.expecting .colon rest) (.mark ':') = some (.expecting .value rest) := rfl

theorem step_comma_array : step (.expecting .separator (.array items :: rest)) (.mark ',')
    = some (.expecting .value (.array items :: rest)) := rfl

theorem step_comma_object : step (.expecting .separator (.object members :: rest)) (.mark ',')
    = some (.expecting .key (.object members :: rest)) := rfl

theorem step_close_array : step (.expecting .separator (.array items :: rest)) (.mark ']')
    = complete (.array items.reverse) rest := rfl

theorem step_close_object : step (.expecting .separator (.object members :: rest)) (.mark '\x7d')
    = complete (.object members.reverse) rest := rfl

end

mutual
/-- Reading the tokens of a value completes it, as long as it does not nest too deep. -/
theorem foldlM_tokens (t : Tree) (good : t.isGrammatical = true) {stack : List Frame}
    (room : stack.length ≤ depthLimit) :
    t.tokens.foldlM Reading.step (.expecting .value stack)
      = if stack.length + t.depth ≤ depthLimit then Reading.complete t stack else none := by
  cases t with
  | null => simp [tokens, depth, room, Reading.step, Reading.value, Reading.wordTree?]
  | bool b => cases b <;> simp [tokens, depth, room, Reading.step, Reading.value, Reading.wordTree?]
  | number text =>
    simp [tokens, depth, room, Reading.step, Reading.value, wordTree?_number (show isNumber text = true from good)]
  | string raw =>
    have body : isStringBody raw = true := good
    simp [tokens, depth, room, Reading.step, Reading.value, body]
  | array items =>
    rw [tokens, List.foldlM_cons]
    by_cases full : stack.length < depthLimit
    · rw [show Reading.step (.expecting .value stack) (.mark '[')
          = some (.expecting .firstItem (.array [] :: stack)) by simp [Reading.step, Reading.value, Reading.enter, full]]
      cases items with
      | nil =>
        have fits : stack.length + 1 ≤ depthLimit := full
        simp [itemTokens, depth, itemsDepth, Reading.step, fits]
      | cons t rest =>
        obtain ⟨first, more, eq, open_⟩ := tokens_eq_cons t
        have start : ∃ tail, itemTokens (t :: rest) = first :: tail := by
          cases rest <;> simp [itemTokens, eq]
        obtain ⟨tail, htail⟩ := start
        have := foldlM_itemTokens (t :: rest) good (by simp) [] full
        have bound : stack.length + (array (t :: rest)).depth = stack.length + 1 + itemsDepth (t :: rest) := by
          rw [depth]; omega
        rw [htail, List.cons_append, List.foldlM_cons] at this
        rw [htail, bound, Option.bind_eq_bind, Option.bind_some, List.cons_append, List.foldlM_cons]
        exact (congrArg (· >>= _) (step_firstItem open_ _)).trans this
    · have deeper : ¬ stack.length + (array items).depth ≤ depthLimit := by simp only [depth]; omega
      simp [Reading.step, Reading.value, Reading.enter, full, deeper]
  | object members =>
    rw [tokens, List.foldlM_cons]
    by_cases full : stack.length < depthLimit
    · rw [show Reading.step (.expecting .value stack) (.mark '\x7b')
          = some (.expecting .firstKey (.object [] :: stack)) by simp [Reading.step, Reading.value, Reading.enter, full]]
      cases members with
      | nil =>
        have fits : stack.length + 1 ≤ depthLimit := full
        simp [memberTokens, depth, membersDepth, Reading.step, fits]
      | cons m rest =>
        have bound : stack.length + (object (m :: rest)).depth = stack.length + 1 + membersDepth (m :: rest) := by
          rw [depth]; omega
        rw [bound]
        exact foldlM_memberTokens (m :: rest) good (by simp) [] .firstKey (.inr rfl) full
    · have deeper : ¬ stack.length + (object members).depth ≤ depthLimit := by simp only [depth]; omega
      simp [Reading.step, Reading.value, Reading.enter, full, deeper]

theorem foldlM_itemTokens (items : List Tree) (good : areGrammatical items = true) (ne : items ≠ [])
    (read : List Tree) {stack : List Frame} (room : stack.length < depthLimit) :
    (itemTokens items ++ [Token.mark ']']).foldlM Reading.step (.expecting .value (.array read :: stack))
      = if stack.length + 1 + itemsDepth items ≤ depthLimit
        then Reading.complete (.array (read.reverse ++ items)) stack else none := by
  have inside : (Frame.array read :: stack).length ≤ depthLimit := room
  match items with
  | [] => exact absurd rfl ne
  | [t] =>
    simp only [areGrammatical, Bool.and_true] at good
    rw [itemTokens, List.foldlM_append, foldlM_tokens t good inside]
    by_cases fits : stack.length + 1 + t.depth ≤ depthLimit
    · simp [itemsDepth, fits, complete_array, step_close_array]
    · simp [itemsDepth, fits]
  | t :: u :: more =>
    rw [areGrammatical, Bool.and_eq_true] at good
    have ih := foldlM_itemTokens (u :: more) good.2 (by simp) (t :: read) room
    rw [itemTokens, List.append_assoc, List.foldlM_append, foldlM_tokens t good.1 inside]
    · by_cases fits : stack.length + 1 + t.depth ≤ depthLimit
      · have bound : stack.length + 1 + itemsDepth (t :: u :: more) ≤ depthLimit
            ↔ stack.length + 1 + itemsDepth (u :: more) ≤ depthLimit := by
          rw [itemsDepth]; omega
        simp only [List.length_cons, fits, if_true, complete_array, Option.bind_eq_bind, Option.bind_some,
          List.cons_append, List.foldlM_cons, step_comma_array, bound]
        simpa using ih
      · have deeper : ¬ stack.length + 1 + itemsDepth (t :: u :: more) ≤ depthLimit := by
          rw [itemsDepth]; omega
        simp [fits, deeper]
    · simp

theorem foldlM_memberTokens (members : List (List Char × Tree)) (good : membersGrammatical members = true)
    (ne : members ≠ []) (read : List (List Char × Tree)) (phase : Phase) (key : phase = .key ∨ phase = .firstKey)
    {stack : List Frame} (room : stack.length < depthLimit) :
    (memberTokens members ++ [Token.mark '\x7d']).foldlM Reading.step (.expecting phase (.object read :: stack))
      = if stack.length + 1 + membersDepth members ≤ depthLimit
        then Reading.complete (.object (read.reverse ++ members)) stack else none := by
  have inside : ∀ raw, (Frame.member read raw :: stack).length ≤ depthLimit := fun _ => room
  have begins : ∀ raw : List Char, isStringBody raw = true →
      Reading.step (.expecting phase (.object read :: stack)) (.string raw)
        = some (.expecting .colon (.member read raw :: stack)) := by
    intro raw body
    rcases key with rfl | rfl <;> simp [Reading.step, body]
  match members with
  | [] => exact absurd rfl ne
  | [(raw, t)] =>
    simp only [membersGrammatical, Bool.and_true, Bool.and_eq_true] at good
    have value := foldlM_tokens t good.2 (inside raw)
    simp only [memberTokens, List.cons_append, List.foldlM_cons, begins raw good.1, Option.bind_eq_bind,
      Option.bind_some, step_colon, List.foldlM_append, value]
    by_cases fits : stack.length + 1 + t.depth ≤ depthLimit
    · simp [membersDepth, fits, complete_member, step_close_object]
    · simp [membersDepth, fits]
  | (raw, t) :: m :: more =>
    have goods := good
    simp only [membersGrammatical, Bool.and_eq_true] at good
    have value := foldlM_tokens t good.1.2 (inside raw)
    have ih := foldlM_memberTokens (m :: more) (by simp [membersGrammatical, good.2]) (by simp) ((raw, t) :: read)
      .key (.inl rfl) room
    rw [memberTokens]
    · simp only [List.append_assoc, List.cons_append, List.foldlM_cons, begins raw good.1.1, Option.bind_eq_bind,
        Option.bind_some, step_colon, List.foldlM_append, value]
      by_cases fits : stack.length + 1 + t.depth ≤ depthLimit
      · have bound : stack.length + 1 + membersDepth ((raw, t) :: m :: more) ≤ depthLimit
            ↔ stack.length + 1 + membersDepth (m :: more) ≤ depthLimit := by
          rw [membersDepth]; omega
        simp only [List.length_cons, fits, if_true, complete_member, Option.bind_some, step_comma_object, bound]
        simpa using ih
      · have deeper : ¬ stack.length + 1 + membersDepth ((raw, t) :: m :: more) ≤ depthLimit := by
          rw [membersDepth]; omega
        simp [fits, deeper]
    · simp
end

/-- A written tree reads as itself, as long as it does not nest too deep. -/
theorem read?_text (t : Tree) (good : t.isGrammatical = true) :
    read? t.text = if t.depth ≤ depthLimit then some t else none := by
  have scanned : tokens? t.chars = some t.tokens := by
    have stop : Delimited [] := by simp [Delimited]
    simpa [tokens?, scan] using scan_chars t good stop
  have folded := foldlM_tokens t good (show ([] : List Frame).length ≤ depthLimit by simp)
  simp only [read?, text, String.toList_ofList, ofChars?, scanned, Option.bind_some, folded]
  by_cases fits : t.depth ≤ depthLimit <;> simp [fits, Reading.complete]

end Tree
end Dossier
