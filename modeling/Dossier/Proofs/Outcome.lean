/-!
# Steps that may fail

How results of `Except` compose: what a step that fails skips, and what a sequence that succeeds went
through. `Outcome.Agree` relates the results of two sequences that fail alike.
-/

namespace Dossier.Outcome

variable {ε α β : Type}

@[simp] theorem ok_bind (a : α) (f : α → Except ε β) : (Except.ok a >>= f) = f a := rfl

@[simp] theorem error_bind (e : ε) (f : α → Except ε β) : (Except.error e >>= f) = .error e := rfl

@[simp] theorem pure_eq (a : α) : (pure a : Except ε α) = .ok a := rfl

@[simp] theorem throw_eq (e : ε) : (throw e : Except ε α) = .error e := rfl

@[simp] theorem map_ok (f : α → β) (a : α) : (Except.ok a : Except ε α).map f = .ok (f a) := rfl

@[simp] theorem map_error (f : α → β) (e : ε) : (Except.error e : Except ε α).map f = .error e := rfl

@[simp] theorem map_eq (f : α → β) (x : Except ε α) : f <$> x = x.map f := rfl

theorem bind_eq_ok {x : Except ε α} {f : α → Except ε β} {b : β} :
    (x >>= f) = .ok b ↔ ∃ a, x = .ok a ∧ f a = .ok b := by
  cases x <;> simp

theorem map_eq_ok {x : Except ε α} {f : α → β} {b : β} : x.map f = .ok b ↔ ∃ a, x = .ok a ∧ f a = b := by
  cases x <;> simp

theorem eq_ok_of_mapError {ε' : Type} {f : ε → ε'} {x : Except ε α} {a : α} (h : x.mapError f = .ok a) : x = .ok a := by
  cases x with
  | error e => cases h
  | ok b => exact congrArg Except.ok (Except.ok.inj h)

theorem eq_ok_of_toOption {x : Except ε α} {a : α} (h : x.toOption = some a) : x = .ok a := by
  cases x with
  | error e => cases h
  | ok b => exact congrArg Except.ok (Option.some.inj h)

/-- What every step over a list keeps, a sequence of them that succeeds keeps. -/
theorem foldlM_keeps {P : β → Prop} {f : β → α → Except ε β} {l : List α}
    (step : ∀ x ∈ l, ∀ y y', P y → f y x = .ok y' → P y') {y y' : β} (start : P y) (made : l.foldlM f y = .ok y') : P y' := by
  induction l generalizing y with
  | nil => cases made; exact start
  | cons x rest ih =>
    rw [List.foldlM_cons] at made
    obtain ⟨mid, first, later⟩ := bind_eq_ok.1 made
    exact ih (fun z mem => step z (List.mem_cons_of_mem _ mem)) (step x List.mem_cons_self _ _ start first) later

theorem mapM_cons_eq_ok {f : α → Except ε β} {x : α} {l : List α} {ys : List β} :
    (x :: l).mapM f = .ok ys ↔ ∃ y rest, f x = .ok y ∧ l.mapM f = .ok rest ∧ ys = y :: rest := by
  rw [List.mapM_cons, bind_eq_ok]
  refine exists_congr fun y => ?_
  rw [bind_eq_ok, ← exists_and_left]
  refine exists_congr fun rest => and_congr_right' (and_congr_right' ?_)
  exact ⟨fun eq => (Except.ok.inj eq).symm, fun eq => congrArg Except.ok eq.symm⟩

section mapM

variable {f : α → Except ε β} {l : List α} {ys : List β}

/-- What a step made of a list that succeeds at all of it. -/
theorem exists_of_mapM (made : l.mapM f = .ok ys) {y : β} (mem : y ∈ ys) : ∃ x ∈ l, f x = .ok y := by
  induction l generalizing ys with
  | nil => cases made; cases mem
  | cons x rest ih =>
    obtain ⟨first, others, here, later, rfl⟩ := mapM_cons_eq_ok.1 made
    rcases List.mem_cons.1 mem with rfl | mem
    · exact ⟨x, List.mem_cons_self, here⟩
    · obtain ⟨z, hz, eq⟩ := ih later mem
      exact ⟨z, List.mem_cons_of_mem _ hz, eq⟩

/-- A step that succeeds at all of a list makes something of each of its elements. -/
theorem exists_of_mem_mapM (made : l.mapM f = .ok ys) {x : α} (mem : x ∈ l) : ∃ y ∈ ys, f x = .ok y := by
  induction l generalizing ys with
  | nil => cases mem
  | cons z rest ih =>
    obtain ⟨first, others, here, later, rfl⟩ := mapM_cons_eq_ok.1 made
    rcases List.mem_cons.1 mem with rfl | mem
    · exact ⟨first, List.mem_cons_self, here⟩
    · obtain ⟨y, hy, eq⟩ := ih later mem
      exact ⟨y, List.mem_cons_of_mem _ hy, eq⟩

/-- What is told alike of an element and of what is made of it is told alike of both lists. -/
theorem map_of_mapM {γ : Type} {g : β → γ} {h : α → γ} (alike : ∀ x y, f x = .ok y → g y = h x)
    (made : l.mapM f = .ok ys) : ys.map g = l.map h := by
  induction l generalizing ys with
  | nil => cases made; rfl
  | cons x rest ih =>
    obtain ⟨y, others, here, later, rfl⟩ := mapM_cons_eq_ok.1 made
    rw [List.map_cons, List.map_cons, alike x y here, ih later]

/-- A step succeeds at part of a list where it succeeds at all of it, and makes part of what it made of all. -/
theorem mapM_sublist {l' : List α} (sub : l'.Sublist l) (made : l.mapM f = .ok ys) :
    ∃ ys', l'.mapM f = .ok ys' ∧ ys'.Sublist ys := by
  induction sub generalizing ys with
  | slnil => exact ⟨ys, made, .refl _⟩
  | cons x _ ih =>
    obtain ⟨y, others, -, later, rfl⟩ := mapM_cons_eq_ok.1 made
    obtain ⟨ys', eq, sub⟩ := ih later
    exact ⟨ys', eq, sub.cons y⟩
  | cons_cons x _ ih =>
    obtain ⟨y, others, here, later, rfl⟩ := mapM_cons_eq_ok.1 made
    obtain ⟨ys', eq, sub⟩ := ih later
    exact ⟨y :: ys', mapM_cons_eq_ok.2 ⟨y, ys', here, eq, rfl⟩, sub.cons_cons y⟩

/-- A step that succeeds at a list succeeds at it in any order. -/
theorem mapM_perm {l' : List α} (perm : l.Perm l') (made : l.mapM f = .ok ys) : ∃ ys', l'.mapM f = .ok ys' ∧ ys.Perm ys' := by
  induction perm generalizing ys with
  | nil => exact ⟨ys, made, .refl _⟩
  | cons x _ ih =>
    obtain ⟨y, others, here, later, rfl⟩ := mapM_cons_eq_ok.1 made
    obtain ⟨ys', eq, perm⟩ := ih later
    exact ⟨y :: ys', mapM_cons_eq_ok.2 ⟨y, ys', here, eq, rfl⟩, perm.cons y⟩
  | swap x z rest =>
    obtain ⟨y, others, here, later, rfl⟩ := mapM_cons_eq_ok.1 made
    obtain ⟨y', others', here', later', rfl⟩ := mapM_cons_eq_ok.1 later
    exact ⟨y' :: y :: others',
      mapM_cons_eq_ok.2 ⟨y', _, here', mapM_cons_eq_ok.2 ⟨y, others', here, later', rfl⟩, rfl⟩, .swap ..⟩
  | trans _ _ ih ih' =>
    obtain ⟨ys', eq, perm⟩ := ih made
    obtain ⟨ys'', eq', perm'⟩ := ih' eq
    exact ⟨ys'', eq', perm.trans perm'⟩

/-- A step at the elements that are told by what is made of them. -/
theorem mapM_filter {p : α → Bool} {q : β → Bool} (alike : ∀ x ∈ l, ∀ y, f x = .ok y → p x = q y)
    (made : l.mapM f = .ok ys) : (l.filter p).mapM f = .ok (ys.filter q) := by
  induction l generalizing ys with
  | nil => cases made; rfl
  | cons x rest ih =>
    obtain ⟨y, others, here, later, rfl⟩ := mapM_cons_eq_ok.1 made
    have kept := ih (fun z mem => alike z (List.mem_cons_of_mem _ mem)) later
    rw [List.filter_cons, List.filter_cons, alike x List.mem_cons_self y here]
    split
    · exact mapM_cons_eq_ok.2 ⟨y, _, here, kept, rfl⟩
    · exact kept

/-- A step at part of a list does what it does at all of it, where it succeeds at the rest. -/
theorem mapM_filter_eq {p : α → Bool} {q : β → Bool} (alike : ∀ x ∈ l, ∀ y, f x = .ok y → p x = q y)
    (succeeds : ∀ x ∈ l, p x = false → ∃ y, f x = .ok y) : (l.filter p).mapM f = (l.mapM f).map (List.filter q) := by
  induction l with
  | nil => rfl
  | cons x rest ih =>
    have later := ih (fun z mem => alike z (List.mem_cons_of_mem _ mem)) fun z mem => succeeds z (List.mem_cons_of_mem _ mem)
    have all : (x :: rest).mapM f = f x >>= fun y => rest.mapM f >>= fun ys => pure (y :: ys) := List.mapM_cons ..
    rw [all, List.filter_cons]
    cases kept : p x with
    | false =>
      obtain ⟨y, here⟩ := succeeds x List.mem_cons_self kept
      have gone : q y = false := alike x List.mem_cons_self y here ▸ kept
      rw [if_neg (by simp), later, here]
      cases rest.mapM f with
      | error e => rfl
      | ok ys => simp [gone]
    | true =>
      rw [if_pos rfl, List.mapM_cons, later]
      cases here : f x with
      | error e => rfl
      | ok y =>
        have stays : q y = true := alike x List.mem_cons_self y here ▸ kept
        cases rest.mapM f with
        | error e => rfl
        | ok ys => simp [stays]

theorem mapM_take (n : Nat) (made : l.mapM f = .ok ys) : (l.take n).mapM f = .ok (ys.take n) := by
  induction l generalizing ys n with
  | nil =>
    cases made
    cases n <;> rfl
  | cons x rest ih =>
    obtain ⟨y, others, here, later, rfl⟩ := mapM_cons_eq_ok.1 made
    cases n with
    | zero => rfl
    | succ n => exact mapM_cons_eq_ok.2 ⟨y, _, here, ih n later, rfl⟩

theorem mapM_drop (n : Nat) (made : l.mapM f = .ok ys) : (l.drop n).mapM f = .ok (ys.drop n) := by
  induction l generalizing ys n with
  | nil =>
    cases made
    cases n <;> rfl
  | cons x rest ih =>
    obtain ⟨y, others, here, later, rfl⟩ := mapM_cons_eq_ok.1 made
    cases n with
    | zero => exact mapM_cons_eq_ok.2 ⟨y, _, here, later, rfl⟩
    | succ n => exact ih n later

end mapM

/-- A step that succeeds at each of a list succeeds at all of it. -/
theorem exists_mapM {f : α → Except ε β} {l : List α} (each : ∀ x ∈ l, ∃ y, f x = .ok y) : ∃ ys, l.mapM f = .ok ys := by
  induction l with
  | nil => exact ⟨[], rfl⟩
  | cons x rest ih =>
    obtain ⟨y, here⟩ := each x List.mem_cons_self
    obtain ⟨ys, later⟩ := ih fun z mem => each z (List.mem_cons_of_mem _ mem)
    exact ⟨y :: ys, by rw [List.mapM_cons, here, ok_bind, later]; rfl⟩

/-- Keeping by a test that does not fail keeps as the test says. -/
theorem filterM_ok {test : α → Except ε Bool} {p : α → Bool} {xs : List α}
    (tests : ∀ x ∈ xs, test x = .ok (p x)) : xs.filterM test = .ok (xs.filter p) := by
  have each : ∀ kept : List α, List.filterAuxM test xs kept = .ok ((xs.filter p).reverse ++ kept) := by
    induction xs with
    | nil => exact fun _ => rfl
    | cons x xs ih =>
      intro kept
      obtain ⟨here, later⟩ := List.forall_mem_cons.1 tests
      rw [List.filterAuxM, here, ok_bind, ih later]
      by_cases keep : p x = true <;> simp [keep]
  rw [List.filterM, each, ok_bind, List.append_nil, List.reverse_reverse]
  rfl

/-- Without some of its steps a sequence does the same, unless it fails at one of them. -/
theorem forM_filter (p : α → Bool) (f : α → Except ε Unit) (l : List α) :
    (l.filter p).forM f = l.forM f ∨ ∃ x ∈ l, p x = false ∧ ∃ e, f x = .error e ∧ l.forM f = .error e := by
  induction l with
  | nil => exact .inl rfl
  | cons x rest ih =>
    have all : (x :: rest).forM f = f x >>= fun _ => rest.forM f := rfl
    rw [all, List.filter_cons]
    cases here : f x with
    | error e =>
      cases kept : p x with
      | false => exact .inr ⟨x, List.mem_cons_self, kept, e, here, rfl⟩
      | true =>
        left
        show (f x >>= fun _ => (rest.filter p).forM f) = _
        rw [here]
        rfl
    | ok u =>
      rcases ih with same | ⟨y, mem, gone, e, failed, eq⟩
      · left
        rw [ok_bind, ← same]
        cases kept : p x with
        | false => rfl
        | true =>
          show (f x >>= fun _ => (rest.filter p).forM f) = _
          rw [here, ok_bind]
      · exact .inr ⟨y, List.mem_cons_of_mem _ mem, gone, e, failed, eq⟩

/-- Both fail with one error, or both make something, related as `ρ` says. -/
def Agree (ρ : α → β → Prop) : Except ε α → Except ε β → Prop
  | .ok a, .ok b => ρ a b
  | .error e, .error e' => e = e'
  | _, _ => False

namespace Agree

variable {γ δ : Type} {ρ : α → β → Prop} {σ : γ → δ → Prop} {x : Except ε α} {y : Except ε β}

theorem bind {f : α → Except ε γ} {g : β → Except ε δ} (h : Agree ρ x y) (next : ∀ a b, ρ a b → Agree σ (f a) (g b)) :
    Agree σ (x >>= f) (y >>= g) := by
  cases x <;> cases y
  · exact h
  · exact h.elim
  · exact h.elim
  · exact next _ _ h

theorem map {f : α → γ} {g : β → δ} (h : Agree ρ x y) (next : ∀ a b, ρ a b → σ (f a) (g b)) :
    Agree σ (x.map f) (y.map g) := by
  cases x <;> cases y
  · exact h
  · exact h.elim
  · exact h.elim
  · exact next _ _ h

theorem mapError {ε' : Type} (f : ε → ε') (h : Agree ρ x y) : Agree ρ (x.mapError f) (y.mapError f) := by
  cases x <;> cases y
  · exact congrArg f h
  · exact h.elim
  · exact h.elim
  · exact h

theorem error (e : ε) : Agree ρ (.error e) (.error e) := rfl

/-- Steps that change nothing can be left out of the second sequence. -/
theorem foldlM_filter {ι : Type} {p : ι → Bool} {f : α → ι → Except ε α} {g : β → ι → Except ε β} (l : List ι)
    (silent : ∀ i ∈ l, p i = false → ∀ a, f a i = .ok a) (each : ∀ i ∈ l, ∀ a b, ρ a b → Agree ρ (f a i) (g b i))
    {a : α} {b : β} (start : ρ a b) : Agree ρ (l.foldlM f a) ((l.filter p).foldlM g b) := by
  induction l generalizing a b with
  | nil => exact start
  | cons i rest ih =>
    have later := fun {a b} => ih (a := a) (b := b) (fun j mem => silent j (List.mem_cons_of_mem _ mem))
      fun j mem => each j (List.mem_cons_of_mem _ mem)
    rw [List.foldlM_cons, List.filter_cons]
    cases kept : p i with
    | false =>
      rw [if_neg (by simp), silent i List.mem_cons_self kept, ok_bind]
      exact later start
    | true =>
      rw [if_pos rfl, List.foldlM_cons]
      exact (each i List.mem_cons_self a b start).bind fun _ _ related => later related

theorem refl (x : Except ε α) : Agree Eq x x := by cases x <;> rfl

theorem eq {x y : Except ε α} (h : Agree Eq x y) : x = y := by
  cases x <;> cases y
  · exact congrArg Except.error h
  · exact h.elim
  · exact h.elim
  · exact congrArg Except.ok h

end Agree

/-- The first fails with an error of which `P` is told, or both do what `ρ` says. -/
def Unless (P : ε → Prop) (ρ : α → β → Prop) (x : Except ε α) (y : Except ε β) : Prop :=
  (∃ e, x = .error e ∧ P e) ∨ Agree ρ x y

namespace Unless

variable {γ δ : Type} {P Q : ε → Prop} {ρ : α → β → Prop} {σ : γ → δ → Prop} {x : Except ε α} {y : Except ε β}

theorem mono (h : Unless P ρ x y) (weaker : ∀ e, P e → Q e) : Unless Q ρ x y :=
  h.imp_left fun ⟨e, failed, told⟩ => ⟨e, failed, weaker e told⟩

theorem bind {f : α → Except ε γ} {g : β → Except ε δ} (h : Unless P ρ x y) (next : ∀ a b, ρ a b → Unless P σ (f a) (g b)) :
    Unless P σ (x >>= f) (y >>= g) := by
  rcases h with ⟨e, rfl, told⟩ | h
  · exact .inl ⟨e, rfl, told⟩
  · cases x <;> cases y
    · exact .inr h
    · exact h.elim
    · exact h.elim
    · exact next _ _ h

/-- What follows a step that both take. -/
theorem bind_same (x : Except ε α) {f : α → Except ε γ} {g : α → Except ε δ} (next : ∀ a, x = .ok a → Unless P σ (f a) (g a)) :
    Unless P σ (x >>= f) (x >>= g) := by
  cases x with
  | error e => exact .inr (.error e)
  | ok a => exact next a rfl

theorem foldlM {ι : Type} {f : α → ι → Except ε α} {g : β → ι → Except ε β} (l : List ι)
    (each : ∀ i ∈ l, ∀ a b, ρ a b → Unless P ρ (f a i) (g b i)) {a : α} {b : β} (start : ρ a b) :
    Unless P ρ (l.foldlM f a) (l.foldlM g b) := by
  induction l generalizing a b with
  | nil => exact .inr start
  | cons i rest ih =>
    rw [List.foldlM_cons, List.foldlM_cons]
    exact (each i List.mem_cons_self a b start).bind fun _ _ related =>
      ih (fun j mem => each j (List.mem_cons_of_mem _ mem)) related

end Unless

end Dossier.Outcome
