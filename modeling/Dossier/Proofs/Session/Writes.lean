import Dossier.Proofs.Database.Spared
import Dossier.Proofs.Session.Plain
import Dossier.Proofs.Session.Twin

/-!
# The bodies that an action gives to rows

`Action.Writes a w written`: run in the workspace, the statements of the action give rows of the collections these bodies.
What an action does without some triggers that ask formulas it does with them, unless one of these turns a body away that it
gives to a row (`Writes.matches_or_refused`): the run without them is followed step by step.
-/

namespace Dossier

open Outcome Workspace Database

namespace Action

/-- Run in the workspace, the statements of the action give rows of the collections these bodies. What a statement gives
is told of the database that it finds. -/
inductive Writes : {α : Type} → Action α → Workspace → List (CollectionName × Body) → Prop
  | pure {α : Type} (x : α) (w : Workspace) : Writes (Pure.pure x : Action α) w []
  | throw {α : Type} (e : StoreError) (w : Workspace) : Writes (MonadExcept.throw e : Action α) w []
  | nextId (w : Workspace) : Writes Action.nextId w []
  | now (w : Workspace) : Writes Action.now w []
  | execute (name : CollectionName) (r : Resolver) {answer : Answer} (s : Statement answer) (w : Workspace) :
    Writes (Action.execute name r s) w ((w.current.bodiesOf name s).map (name, ·))
  | bind {α β : Type} {a : Action α} {f : α → Action β} {w v : Workspace} {x : α} {first later : List (CollectionName × Body)}
    (here : Writes a w first) (made : a.result w = (.ok x, v)) (next : Writes (f x) v later) : Writes (a >>= f) w (first ++ later)
  | stop {α β : Type} {a : Action α} {f : α → Action β} {w v : Workspace} {e : StoreError} {first : List (CollectionName × Body)}
    (here : Writes a w first) (failed : a.result w = (.error e, v)) : Writes (a >>= f) w first
  | transaction {α : Type} {a : Action α} {w v : Workspace} {written : List (CollectionName × Body)}
    (begun : begin.result w = (.ok (), v)) (inside : Writes a v written) : Writes (Action.transaction a) w written
  | barred {α : Type} {a : Action α} {w v : Workspace} {e : StoreError} (failed : begin.result w = (.error e, v)) :
    Writes (Action.transaction a) w []

/-- What is done after the last statement that writes gives no row a body. -/
theorem Writes.bind_silent {α β : Type} {a : Action α} {f : α → Action β} {w : Workspace}
    {written : List (CollectionName × Body)} (here : Writes a w written) (silent : ∀ x v, Writes (f x) v []) :
    Writes (a >>= f) w written := by
  cases made : a.result w with
  | mk r v =>
    cases r with
    | error e => exact .stop here made
    | ok x => exact List.append_nil written ▸ .bind here made (silent x v)

theorem writes_ofStore {α : Type} (r : Except StoreError α) (w : Workspace) : Writes (ofStore r) w [] := by
  cases r with
  | ok x => exact .pure x w
  | error e => exact .throw e w

/-- Every run of an operation on documents gives rows some bodies, or none. -/
theorem Plain.exists_writes {α : Type} {a : Action α} (plain : Plain a) (w : Workspace) : ∃ written, Writes a w written := by
  induction plain generalizing w with
  | pure x => exact ⟨_, .pure x w⟩
  | throw e => exact ⟨_, .throw e w⟩
  | nextId => exact ⟨_, .nextId w⟩
  | now => exact ⟨_, .now w⟩
  | execute name r s => exact ⟨_, .execute name r s w⟩
  | @bind α β a f _ _ first later =>
    obtain ⟨written, here⟩ := first w
    cases made : a.result w with
    | mk r v =>
      cases r with
      | error e => exact ⟨_, .stop here made⟩
      | ok x =>
        obtain ⟨more, next⟩ := later x v
        exact ⟨_, .bind here made next⟩
  | transaction _ ih =>
    cases begun : begin.result w with
    | mk r v =>
      cases r with
      | error e => exact ⟨_, .barred begun⟩
      | ok _ =>
        obtain ⟨written, inside⟩ := ih v
        exact ⟨_, .transaction begun inside⟩

/-- The result is the failure with which one of the triggers turns away a body that a row of their table is given. -/
def Refused (gs : List Trigger) (table : String) (written : List (CollectionName × Body)) {α : Type}
    (r : Except StoreError α) : Prop :=
  ∃ p ∈ written, Text.sameName table p.1.text = true ∧ ∃ e, Trigger.TurnsAway gs table p.2 e ∧ r = .error (.ofEngine e)

namespace Refused

variable {gs : List Trigger} {table : String} {written more : List (CollectionName × Body)} {α β : Type}

theorem mono {r : Except StoreError α} (h : Refused gs table written r) (sub : ∀ p ∈ written, p ∈ more) : Refused gs table more r :=
  have ⟨p, mem, rest⟩ := h
  ⟨p, sub p mem, rest⟩

/-- The failure of a first step is that of the whole. -/
theorem bind {a : Action α} {w : Workspace} (h : Refused gs table written (a.result w).1) (f : α → Action β) :
    Refused gs table written ((a >>= f).result w).1 := by
  obtain ⟨p, mem, on, e, away, failed⟩ := h
  refine ⟨p, mem, on, e, away, ?_⟩
  rw [result_bind, show a.result w = (.error (.ofEngine e), (a.result w).2) from Prod.ext failed rfl]

/-- The failure in a level is that of the transaction. -/
theorem transaction {a : Action α} {w v : Workspace} (begun : begin.result w = (.ok (), v))
    (h : Refused gs table written (a.result v).1) : Refused gs table written ((Action.transaction a).result w).1 := by
  obtain ⟨p, mem, on, e, away, failed⟩ := h
  refine ⟨p, mem, on, e, away, ?_⟩
  rw [result_transaction, begun]
  simp only
  rw [show a.result v = (.error (.ofEngine e), (a.result v).2) from Prod.ext failed rfl]

end Refused

/-- What an action does without some triggers that ask formulas it does with them, unless one of these turns away a body that
it gives to a row of their table. -/
theorem Writes.matches_or_refused {gs : List Trigger} {table : String} (asks : ∀ g ∈ gs, ∃ φ message, g.Asks φ table message)
    {α : Type} {a : Action α} {u' : Workspace} {written : List (CollectionName × Body)} (writes : Writes a u' written)
    {u : Workspace} (pair : Pair True (Spared gs) u u') :
    Matches True True (Spared gs) Eq a a u u' ∨ Refused gs table written (a.result u).1 := by
  induction writes generalizing u with
  | pure x => exact .inl (Twin.pure rfl _ _ pair)
  | throw e => exact .inl (Twin.throw e _ _ pair)
  | nextId => exact .inl (Twin.nextId _ _ pair)
  | now =>
    have clock := pair.clocks trivial
    exact .inl ⟨⟨congrArg Clock.now clock, pair.current⟩, .read pair.orderly, .read pair.orderly', pair.ids,
      fun _ => congrArg Clock.rest clock⟩
  | @execute name r answer s w =>
    rcases pair.current.run asks name r s with ⟨e, failed, b, mem, on, away⟩ | same
    · refine .inr ⟨(name, b), List.mem_map_of_mem (pair.current.bodiesOf name s ▸ mem), on, e, away, ?_⟩
      cases answer with
      | changed =>
        rcases write_unlocked pair.orderly pair.unlocked (fun db => db.run name r s) with ⟨e', failed', eq⟩ | ⟨_, _, made, -⟩
        · cases failed.symm.trans failed'
          exact congrArg Prod.fst eq
        · cases failed.symm.trans made
      | rows | number =>
        have answer : ((Action.read fun db => (db.run name r s).map (·.1)).result u).1 = .error (.ofEngine e) := by
          rw [(read_kept pair.orderly fun db => (db.run name r s).map (·.1)).1, failed]
          rfl
        exact answer
    · left
      cases answer with
      | changed => exact Matches.write pair same
      | rows | number =>
        have answers : Agree Eq ((u.current.run name r s).map (·.1)) ((w.current.run name r s).map (·.1)) :=
          same.map fun _ _ both => both.1
        have reads : Matches True True (Spared gs) Eq (Action.read fun db => (db.run name r s).map (·.1))
          (Action.read fun db => (db.run name r s).map (·.1)) u w := .read pair answers
        exact reads
  | @bind α β a f w v x written more here made next first later =>
    rcases first pair with same | refused
    · have ends := same.ends
      have kept := same.kept
      have kept' := same.kept'
      have ids := same.ids
      have clocks := same.clocks
      rw [made] at ends kept' ids clocks
      cases ran : a.result u with
      | mk r t =>
        rw [ran] at ends kept ids clocks
        cases r with
        | error e => exact ends.elim
        | ok y =>
          obtain ⟨rfl, current⟩ := ends
          refine (later (pair.next kept kept' ids clocks current)).imp (fun again => ?_) fun refused => ?_
          · refine same.bind_at pair fun _ _ _ _ one other _ _ => ?_
            cases ran.symm.trans one
            cases made.symm.trans other
            exact again
          · have whole : (a >>= f).result u = (f y).result t := by rw [result_bind, ran]
            exact whole ▸ refused.mono fun p mem => List.mem_append_right _ mem
    · exact .inr ((refused.bind f).mono fun p mem => List.mem_append_left _ mem)
  | @stop α β a f w v e written here failed first =>
    refine (first pair).imp (fun same => ?_) fun refused => refused.bind f
    refine same.bind_at pair fun x y v v' _ other _ _ => ?_
    cases failed.symm.trans other
  | @transaction α a w v' written begun inside ih =>
    obtain ⟨v, opened, -⟩ := exists_begun pair.orderly pair.unlocked
    exact (ih (pair_of_begun pair opened begun)).imp (fun same => .transaction_of_begun pair opened begun fun _ _ _ _ _ => same.relax)
      fun refused => refused.transaction opened
  | barred failed =>
    obtain ⟨v, opened, -⟩ := exists_begun pair.orderly' pair.unlocked'
    cases failed.symm.trans opened

/-- An action that does not fail with the triggers gives rows the bodies that it gives without them. -/
theorem Writes.of_ok {gs : List Trigger} {table : String} (asks : ∀ g ∈ gs, ∃ φ message, g.Asks φ table message) {α : Type}
    {a : Action α} {u' : Workspace} {written : List (CollectionName × Body)} (writes : Writes a u' written) {u v : Workspace} {x : α}
    (pair : Pair True (Spared gs) u u') (made : a.result u = (.ok x, v)) : Writes a u written := by
  have alike : ∀ {β : Type} {b : Action β} {w w' v : Workspace} {more : List (CollectionName × Body)} {x : β}, Writes b w' more →
      Pair True (Spared gs) w w' → b.result w = (.ok x, v) → Matches True True (Spared gs) Eq b b w w' := by
    intro β b w w' v more x here pair made
    refine (here.matches_or_refused asks pair).resolve_right ?_
    rintro ⟨p, -, -, e, -, failed⟩
    rw [made] at failed
    cases failed
  induction writes generalizing u v with
  | pure y => exact .pure y u
  | throw e => exact .throw e u
  | nextId => exact .nextId u
  | now => exact .now u
  | execute name r s => exact pair.current.bodiesOf name s ▸ .execute name r s u
  | @bind α β a f w v' y written more here ran next first later =>
    obtain ⟨z, t, one, rest⟩ := result_bind_eq_ok.1 made
    obtain ⟨ends, kept, kept', ids, clocks⟩ := alike here pair one
    rw [one, ran] at ends
    rw [one] at kept ids clocks
    rw [ran] at kept' ids clocks
    obtain ⟨rfl, current⟩ := ends
    exact .bind (first pair one) one (later (pair.next kept kept' ids clocks current) rest)
  | @stop α β a f w v' e written here failed first =>
    obtain ⟨z, t, one, rest⟩ := result_bind_eq_ok.1 made
    have ends := (alike here pair one).ends
    rw [one, failed] at ends
    exact ends.elim
  | @transaction α a w v' written begun inside ih =>
    obtain ⟨t, opened, -⟩ := exists_begun pair.orderly pair.unlocked
    rw [result_transaction, opened] at made
    cases ran : a.result t with
    | mk answer s =>
      simp only [ran] at made
      cases answer with
      | error e => cases made
      | ok y => exact .transaction opened (ih (pair_of_begun pair opened begun) ran)
  | barred failed =>
    obtain ⟨t, opened, -⟩ := exists_begun pair.orderly' pair.unlocked'
    cases failed.symm.trans opened

end Action

end Dossier
