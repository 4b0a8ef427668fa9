import Dossier.Filter.Term
import Dossier.Proofs.Json.Distinct
import Dossier.Proofs.Sql.Numeral

/-!
# What is extracted and what is handed over

The engine extracts a value of a stored text as `Tree.value`, and the store hands a value over as `Value.ofJson`. For the
value that a stored tree decodes to, the two are the same (`Tree.value_eq_ofJson`) as far as its numbers are read exactly
(`Tree.ReadsExactly`): a container is compared by its text, and the store writes the double that it has decoded in its own
form, whatever text the engine had written for it.
-/

namespace Dossier

open Decimal Text

/-! ## Texts of numbers -/

namespace Decimal.Digits

theorem point_mem_positional (d : Digits) : '.' ∈ d.positional := by
  unfold positional
  split <;> simp

theorem exponent_mem_scientific (d : Digits) (bare : Bool) (width : Nat) : 'e' ∈ d.scientific bare width := by
  simp [scientific]

end Decimal.Digits

namespace Tree

variable {t : Tree} {text : List Char}

theorem isWholeText_of_mem {c : Char} (mem : c ∈ text) (mark : (c.isDigit || c == '-') = false) : isWholeText text = false :=
  List.all_eq_false.2 ⟨c, mem, by simp [mark]⟩

/-- The text of a number without point or exponent is that of a whole number. -/
theorem IsNumeral.exists_whole (h : IsNumeral text) (whole : isWholeText text = true) :
    ∃ n : Whole, text = Number.intText n.val := by
  have real : ∀ body : List Char, '.' ∈ body ∨ 'e' ∈ body → isWholeText body = false := fun body marked =>
    marked.elim (isWholeText_of_mem · (by decide)) (isWholeText_of_mem · (by decide))
  have choose : ∀ (d : Digits) (p q : Prop) [Decidable p] [Decidable q] (bare : Bool) (width : Nat),
      let body := if p then d.positional else d.scientific bare width
      isWholeText (if q then '-' :: body else body) = false := by
    intro d p q _ _ bare width
    refine real _ ?_
    have marked : '.' ∈ (if p then d.positional else d.scientific bare width)
        ∨ 'e' ∈ (if p then d.positional else d.scientific bare width) := by
      split
      · exact .inl d.point_mem_positional
      · exact .inr (d.exponent_mem_scientific bare width)
    split
    · exact marked.imp (List.mem_cons_of_mem _) (List.mem_cons_of_mem _)
    · exact marked
  have refuted : ∀ {p : Prop}, isWholeText text = false → p := fun not => absurd (not.symm.trans whole) (by simp)
  rcases h with ⟨n, rfl⟩ | ⟨x, eq⟩
  · cases n with
    | whole n => exact ⟨n, rfl⟩
    | real x =>
      refine refuted ?_
      cases finite : Binary.ofFloat? x with
      | none => simp only [Number.chars, Number.realText, finite]; decide
      | some b =>
        simp only [Number.chars, Number.realText, finite]
        exact choose _ _ _ true 1
  · refine refuted ?_
    rw [ofValue] at eq
    split at eq
    · cases eq
      exact choose _ _ _ false 2
    · obtain rfl := Tree.number.inj eq
      split <;> decide

/-! ## Texts of containers -/

/-- The text is that of the number it reads as. -/
def IsReadBack (text : List Char) : Prop := ∃ n, Number.ofChars? text = some n ∧ text = n.chars

/-- All numbers are read back. -/
def KeepsNumbers (t : Tree) : Prop := t.Consists (fun _ => True) IsReadBack

theorem fieldTrees_append (fields others : Fields) :
    Json.fieldTrees (fields ++ others) = Json.fieldTrees fields ++ Json.fieldTrees others := by
  induction fields with
  | nil => rfl
  | cons f rest ih => exact congrArg ((escapeString f.1, f.2.tree) :: ·) ih

mutual
/-- A tree of escaped strings and kept numbers that repeats no key is the tree of its value. -/
theorem tree_of_json? (t : Tree) {j : Json} (distinct : t.isDistinct = true)
    (kept : t.Consists IsEscaped IsReadBack) (read : t.json? = some j) :
    j.tree = t := by
  cases t with
  | null | bool => cases read; rfl
  | number text =>
    obtain ⟨n, known, same⟩ := kept
    obtain ⟨m, decoded, rfl⟩ := Option.map_eq_some_iff.1 read
    cases known.symm.trans decoded
    exact congrArg Tree.number same.symm
  | string raw =>
    obtain ⟨s, rfl⟩ := kept
    obtain ⟨s', decoded, rfl⟩ := Option.map_eq_some_iff.1 read
    cases (unescape_escapeString s).symm.trans decoded
    rfl
  | array items =>
    obtain ⟨js, all, rfl⟩ := Option.map_eq_some_iff.1 read
    exact congrArg Tree.array (itemTrees_of_jsonItems? items distinct kept all)
  | object members =>
    obtain ⟨fields, all, rfl⟩ := Option.map_eq_some_iff.1 read
    obtain ⟨keys, values⟩ := isDistinct_object.1 distinct
    exact congrArg Tree.object (fieldTrees_of_jsonFields? members keys (membersDistinct_iff.2 values) kept (by simp [Fields.keys]) all)

theorem itemTrees_of_jsonItems? (items : List Tree) {js : List Json} (distinct : areDistinct items = true)
    (kept : ItemsConsist IsEscaped IsReadBack items)
    (read : jsonItems? items = some js) : Json.itemTrees js = items := by
  match items with
  | [] => cases read; rfl
  | t :: rest =>
    rw [areDistinct, Bool.and_eq_true] at distinct
    obtain ⟨j, first, read⟩ := Option.bind_eq_some_iff.1 read
    obtain ⟨others, later, rfl⟩ := Option.map_eq_some_iff.1 read
    rw [Json.itemTrees, tree_of_json? t distinct.1 kept.1 first, itemTrees_of_jsonItems? rest distinct.2 kept.2 later]

theorem fieldTrees_of_jsonFields? (members : List (List Char × Tree)) {before fields : Fields}
    (keys : (memberKeys members).Nodup) (distinct : membersDistinct members = true)
    (kept : MembersConsist IsEscaped IsReadBack members)
    (new : ∀ k ∈ memberKeys members, k ∉ Fields.keys before) (read : jsonFields? before members = some fields) :
    Json.fieldTrees fields = Json.fieldTrees before ++ members := by
  match members with
  | [] =>
    cases read
    exact (List.append_nil _).symm
  | (raw, t) :: rest =>
    rw [membersDistinct, Bool.and_eq_true] at distinct
    obtain ⟨⟨s, rfl⟩, here, later⟩ := kept
    obtain ⟨k, named, read⟩ := Option.bind_eq_some_iff.1 read
    cases (unescape_escapeString s).symm.trans named
    obtain ⟨j, first, read⟩ := Option.bind_eq_some_iff.1 read
    have name : stringText (escapeString s) = s := stringText_escapeString s
    have first_ : memberKeys ((escapeString s, t) :: rest) = s :: memberKeys rest := congrArg (· :: memberKeys rest) name
    rw [first_] at keys new
    obtain ⟨absent, others⟩ := List.nodup_cons.1 keys
    have fresh : s ∉ Fields.keys before := new s List.mem_cons_self
    rw [Fields.put_of_new fresh] at read
    have apart : ∀ k ∈ memberKeys rest, k ∉ Fields.keys (before ++ [(s, j)]) := by
      intro k mem known
      rw [Fields.keys, List.map_append, List.mem_append] at known
      rcases known with old | last
      · exact new k (List.mem_cons_of_mem _ mem) old
      · have same : k = s := List.mem_singleton.1 last
        exact absent (same ▸ mem)
    rw [fieldTrees_of_jsonFields? rest others distinct.2 later apart read, fieldTrees_append, List.append_assoc]
    rw [Json.fieldTrees, tree_of_json? t distinct.1 here first]
    rfl
end

/-! ## Values -/

/-- The numbers are read exactly: a double by itself is the one nearest to its text, and a container has the texts of the
numbers that are read. -/
def ReadsExactly : Tree → Prop
  | number text => ∀ x n, Number.ofChars? text = some (.real x) → Value.numeral? (String.ofList text) = some n → x = n.toFloat
  | t => t.KeepsNumbers

/-- A number is extracted as it is handed over. -/
theorem numberValue_eq_ofNumber {n : Number} (numeral : IsNumeral text) (proper : text ≠ "null".toList)
    (exact_ : (number text).ReadsExactly) (read : Number.ofChars? text = some n) : numberValue text = Value.ofNumber n := by
  cases n with
  | whole n =>
    obtain ⟨m, rfl⟩ := numeral.exists_whole (Number.isWholeText_of_ofChars? read)
    cases (Number.ofChars?_intText m).symm.trans read
    exact numberValue_whole n
  | real x =>
    obtain ⟨m, known, whole⟩ := Value.numeral?_of_isNumber (numeral.isNumber proper)
    cases signed : m.signed? with
    | none =>
      rw [numberValue_of_none known signed, ← exact_ x m read known]
      rfl
    | some i =>
      have pointless : m.whole = true := by
        simp only [Value.Numeral.signed?, Option.ite_none_right_eq_some, Bool.and_eq_true] at signed
        exact signed.1.1.1
      obtain ⟨k, rfl⟩ := numeral.exists_whole (whole pointless)
      cases (Number.ofChars?_intText k).symm.trans read

/-- What the engine extracts of a stored tree is what the store hands over for its value. -/
theorem value_eq_ofJson {j : Json} (distinct : t.isDistinct = true)
    (written : t.Consists IsEscaped fun text => IsNumeral text ∧ text ≠ "null".toList) (exact_ : t.ReadsExactly)
    (read : t.json? = some j) : t.value = Value.ofJson j := by
  have container : t.KeepsNumbers → j.tree = t := fun keeps =>
    tree_of_json? t distinct (Consists.mono (fun _ h => h.1) (fun _ h => h.2) t (Consists.and t written keeps)) read
  cases t with
  | null | bool => cases read; rfl
  | number text =>
    obtain ⟨n, known, rfl⟩ := Option.map_eq_some_iff.1 read
    exact numberValue_eq_ofNumber written.1 written.2 exact_ known
  | string raw =>
    obtain ⟨s, known, rfl⟩ := Option.map_eq_some_iff.1 read
    exact congrArg Value.text (stringText_of_unescape? known)
  | array items =>
    obtain ⟨js, -, rfl⟩ := Option.map_eq_some_iff.1 read
    exact congrArg (fun t => Value.text t.text) (container exact_).symm
  | object members =>
    obtain ⟨fields, -, rfl⟩ := Option.map_eq_some_iff.1 read
    exact congrArg (fun t => Value.text t.text) (container exact_).symm

end Tree

/-- The engine extracts a value without doubles as it is handed over. -/
theorem Json.value_tree {v : Json} (plain : v.isPlain = true) : v.tree.value = Value.ofJson v := by
  cases v with
  | null | bool | array | object => rfl
  | number n =>
    cases n with
    | whole n => exact Tree.numberValue_whole n
    | real x => cases plain
  | string s => exact congrArg Value.text (stringText_escapeString s)

/-! ## Equality -/

theorem Decimal.Magnitude.compare_self (m : Magnitude) : m.compare m = .eq := by
  cases m with
  | below | above => rfl
  | ratio a b => exact Int.compare_eq_eq.2 rfl

namespace Value

theorem textOrder_self (cs : List Char) : textOrder cs cs = .eq := by
  induction cs with
  | nil => rfl
  | cons c rest ih => rw [textOrder, ih, Nat.compare_eq_eq.2 rfl]; rfl

theorem order_self (c : Collation) (v : Value) : order c v v = .eq := by
  cases v with
  | text s => exact textOrder_self _
  | null | integer | real =>
    rw [order, Magnitude.compare_self, Nat.compare_eq_eq.2 rfl]
    · rfl
    all_goals simp

/-- Every value but null equals itself, under every affinity. -/
theorem test_self {v : Value} (proper : v.isNull = false) (a : Affinity) (c : Collation) : test .eq a c v v = some true := by
  have aligned : ∃ z, align a v v = (z, z) := by
    unfold align
    split
    · exact ⟨_, rfl⟩
    · split <;> exact ⟨_, rfl⟩
  obtain ⟨z, same⟩ := aligned
  simp only [test, compare?, proper, same, order_self, Bool.or_self]
  rfl

theorem isNull_ofNumber (n : Number) : (ofNumber n).isNull = false := by
  unfold ofNumber
  split <;> rfl

end Value

/-- The condition that a place equals a value holds where the value is read as it is handed over. -/
theorem Condition.holds_equality {read : Operand → Value} {x : Operand} {v : Json} (same : read x = .ofJson v) :
    ((Condition.compare .eq v).term x).holds read = some true := by
  cases v with
  | null =>
    show some (read x).isNull = _
    rw [same]
    rfl
  | bool | number | string | array | object =>
    show Value.test .eq x.affinity .binary (read x) _ = _
    rw [same]
    exact Value.test_self (by first | rfl | exact Value.isNull_ofNumber _) _ _

end Dossier
