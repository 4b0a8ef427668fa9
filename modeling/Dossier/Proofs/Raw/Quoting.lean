import Dossier.Proofs.Raw.Comparing

/-!
# Quoted texts in a fragment

A text stands in SQL between quotes, each quote of it doubled (`Quotes`). The scanner takes exactly that as one piece
(`pieces_eq_quoted_iff`), the letters of an extraction occur in it as they do in the text (`Quotes.extracts_append_iff`), and
so the rewriting of a fragment passes over a quoted text at its beginning (`resolve_quoted`).
-/

namespace Dossier.Raw

open Text Sql

variable {source text quoted rest : String} {q : Char}

/-! ## Occurrences -/

section Occurrences

variable {α : Type} {part : List α} {f : Char → α} {cs : List Char}

theorem prefix_map_doubled_iff (apart : f q ∉ part) : part <+: (doubled q cs).map f ↔ part <+: cs.map f := by
  induction cs generalizing part with
  | nil => rfl
  | cons c cs ih =>
    cases part with
    | nil => exact iff_of_true List.nil_prefix List.nil_prefix
    | cons p part =>
      obtain ⟨ne, later⟩ := not_or.1 (fun mem => apart (List.mem_cons.2 mem))
      by_cases same : c = q
      · subst same
        simp only [doubled_cons_self, List.map_cons, List.cons_prefix_cons]
        exact iff_of_false (fun h => ne h.1.symm) fun h => ne h.1.symm
      · simp only [doubled_cons_of_ne same, List.map_cons, List.cons_prefix_cons, ih later]

/-- What has no quote in it occurs in a text whether quotes are doubled or not. -/
theorem infix_map_doubled_iff (apart : f q ∉ part) : part <:+: (doubled q cs).map f ↔ part <:+: cs.map f := by
  induction cs with
  | nil => rfl
  | cons c cs ih =>
    by_cases same : c = q
    · subst same
      rw [doubled_cons_self, List.map_cons, List.map_cons, List.map_cons, infix_cons_iff_of_not_mem apart,
        infix_cons_iff_of_not_mem apart, infix_cons_iff_of_not_mem apart, ih]
    · have front : part <+: f c :: (doubled q cs).map f ↔ part <+: f c :: cs.map f := by
        rw [← List.map_cons, ← List.map_cons, ← doubled_cons_of_ne same, prefix_map_doubled_iff apart]
      rw [doubled_cons_of_ne same, List.map_cons, List.map_cons, List.infix_cons_iff, List.infix_cons_iff, front, ih]

end Occurrences

/-! ## Fragments -/

/-- The text as SQL has it between quotes: a string between single ones, or a name between double ones. -/
inductive Quotes (text : String) : Char → String → Prop
  | string : Quotes text '\'' ("'" ++ escapeLiteral text ++ "'")
  | name : Quotes text '"' (quoteName text)

theorem quotes_iff : Quotes text q quoted ↔ (q = '\'' ∨ q = '"') ∧ quoted.toList = q :: (doubled q text.toList ++ [q]) := by
  have string : ("'" ++ escapeLiteral text ++ "'").toList = '\'' :: (doubled '\'' text.toList ++ ['\'']) := by
    simp [escapeLiteral, String.toList_append, doubled]
  constructor
  · rintro (_ | _)
    · exact ⟨.inl rfl, string⟩
    · exact ⟨.inr rfl, toList_quoteName text⟩
  · rintro ⟨rfl | rfl, whole⟩
    · obtain rfl := String.toList_injective (whole.trans string.symm)
      exact .string
    · obtain rfl := String.toList_injective (whole.trans (toList_quoteName text).symm)
      exact .name

/-- The scanner takes as one piece exactly what is a quoted text before something that does not go on with it, and a text whose
quote is never closed at the end of a fragment. -/
theorem pieces_eq_quoted_iff (kind : q = '\'' ∨ q = '"') (opens : quoted.toList.head? = some q) :
    pieces (quoted ++ rest).toList = .quoted quoted.toList :: pieces rest.toList
      ↔ ((∃ text, Quotes text q quoted) ∧ rest.toList.head? ≠ some q)
        ∨ ((∃ body, quoted.toList = q :: doubled q body) ∧ rest = "") := by
  obtain ⟨run, whole⟩ := List.head?_eq_some_iff.1 opens
  have closes : closing? q = some q ∧ q ≠ ']' := by rcases kind with rfl | rfl <;> decide
  have split : pieces (quoted ++ rest).toList = .quoted quoted.toList :: pieces rest.toList
      ↔ quotedRun q (run ++ rest.toList) = (run, rest.toList) := by
    rw [String.toList_append, whole, List.cons_append, pieces_of_closing? closes.1]
    constructor
    · intro same
      have taken : (quotedRun q (run ++ rest.toList)).1 = run := by simpa using (List.cons.inj same).1
      have parts := quotedRun_append q (run ++ rest.toList)
      rw [taken] at parts
      exact Prod.ext taken (List.append_cancel_left parts)
    · intro taken
      rw [taken]
  have text : (∃ text, Quotes text q quoted) ↔ ∃ body, run = doubled q body ++ [q] := by
    constructor
    · rintro ⟨text, quotes⟩
      exact ⟨text.toList, (List.cons.inj (whole.symm.trans (quotes_iff.1 quotes).2)).2⟩
    · rintro ⟨body, rfl⟩
      exact ⟨String.ofList body, quotes_iff.2 ⟨kind, by rw [whole, String.toList_ofList]⟩⟩
  rw [split, quotedRun_eq_iff closes.2, exists_or, exists_and_right, exists_and_right, ends_beq_iff, text, whole]
  simp only [List.cons.injEq, true_and, String.toList_eq_nil_iff]

/-- No extraction begins before a quote and ends after it. -/
theorem Quotes.extracts_append_iff (quotes : Quotes text q quoted) :
    Extracts (quoted ++ rest).toList ↔ Extracts text.toList ∨ Extracts rest.toList := by
  have apart : q.toLower ∉ "json_extract".toList := by cases quotes <;> decide
  unfold Extracts
  rw [String.toList_append, (quotes_iff.1 quotes).2, List.cons_append, List.append_assoc, List.singleton_append, List.map_cons,
    List.map_append, List.map_cons, infix_cons_iff_of_not_mem apart, infix_append_cons_iff apart, infix_map_doubled_iff apart]

/-- The scanner takes a quoted text as one piece, however many quotes are in it, and the rewriting of a fragment that begins with
one is the text as it is and the rewriting of the rest, whatever that holds. -/
theorem resolve_quoted (source : String) (quotes : Quotes text q quoted) (plain : extracts text = false)
    (ends : rest.toList.head? ≠ some q) :
    pieces (quoted ++ rest).toList = .quoted quoted.toList :: pieces rest.toList
      ∧ resolve source (quoted ++ rest) = quoted ++ resolve source rest := by
  obtain ⟨kind, whole⟩ := quotes_iff.1 quotes
  have opens : quoted.toList.head? = some q := by rw [whole, List.head?_cons]
  have split := (pieces_eq_quoted_iff kind opens).2 (.inl ⟨⟨text, quotes⟩, ends⟩)
  refine ⟨split, ?_⟩
  by_cases later : Extracts rest.toList
  · rw [resolve_of_extracts later, resolve_of_extracts (quotes.extracts_append_iff.2 (.inr later))]
  · have before : ¬ Extracts text.toList := by rw [← extracts_iff, plain]; decide
    have none_ : ¬ Extracts (quoted ++ rest).toList := fun h => (quotes.extracts_append_iff.1 h).elim before later
    refine String.toList_injective ?_
    rw [toList_resolve none_, rewritten, split, String.toList_append, toList_resolve later]
    rfl

/-- Rows of quotes at both ends of a text, and quotes of the other kind right after it. -/
theorem resolve_quoted_rows :
    ((Quotes "''a = '" '\'' "'''''a = '''" ∧ extracts "''a = '" = false ∧ "\"\" > b".toList.head? ≠ some '\'')
      ∧ resolve bodyColumn ("'''''a = '''" ++ "\"\" > b") = "'''''a = '''" ++ "\"\" > json_extract(data, '$.\"b\"')")
    ∧ (Quotes "\"a = \"\"" '"' "\"\"\"a = \"\"\"\"\"" ∧ extracts "\"a = \"\"" = false ∧ "'' > b".toList.head? ≠ some '"')
      ∧ resolve bodyColumn ("\"\"\"a = \"\"\"\"\"" ++ "'' > b")
        = "\"\"\"a = \"\"\"\"\"" ++ "'' > json_extract(data, '$.\"b\"')" := by
  have literal : Quotes "''a = '" '\'' "'''''a = '''" :=
    (show "'" ++ escapeLiteral "''a = '" ++ "'" = "'''''a = '''" by decide) ▸ .string
  have column : Quotes "\"a = \"\"" '"' "\"\"\"a = \"\"\"\"\"" :=
    (show quoteName "\"a = \"\"" = "\"\"\"a = \"\"\"\"\"" by decide) ▸ .name
  have afterString : resolve bodyColumn "\"\" > b" = "\"\" > json_extract(data, '$.\"b\"')" := by decide +kernel
  have afterName : resolve bodyColumn "'' > b" = "'' > json_extract(data, '$.\"b\"')" := by decide +kernel
  refine ⟨⟨⟨literal, by decide, by decide⟩, ?_⟩, ⟨column, by decide, by decide⟩, ?_⟩
  · rw [(resolve_quoted bodyColumn literal (by decide) (by decide)).2, afterString]
  · rw [(resolve_quoted bodyColumn column (by decide) (by decide)).2, afterName]

end Dossier.Raw
