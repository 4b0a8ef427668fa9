import Dossier.Proofs.Database.Twins
import Dossier.Proofs.Session.Twin
import Dossier.Session.Request

/-!
# Operations on twin collections

The operations on documents do the same to twin databases, whatever is promoted in them: each asks its statements of
both, and the statements answer alike. Of an update that holds if both runs make it in the same way.
-/

namespace Dossier

open Outcome Database

/-! ## Replies -/

/-- The document without its times. -/
def Document.untimed (d : Document) : Document := { d with createdAt := 0, updatedAt := 0 }

/-- The reply without the times of documents. -/
def CollectionReply.untimed : CollectionReply → CollectionReply
  | .documents found wanted => .documents (found.map Document.untimed) wanted
  | .document found => .document (found.map Document.untimed)
  | reply => reply

/-- The call reads, inserts, updates, replaces or deletes documents. -/
def CollectionRequest.onDocuments : CollectionRequest → Bool
  | .insertOne _ | .insertMany _ | .find .. | .findOne _ | .count _ | .update .. | .replaceOne .. | .delete .. => true
  | _ => false

/-- The call asks for no time of documents. -/
def CollectionRequest.Timeless : CollectionRequest → Prop
  | .find filter listing _ =>
    (∀ f, Filter.parse filter = .ok f → f.Timeless) ∧ ∀ l, listing.listing = .ok l → l.Timeless
  | .findOne filter | .count filter | .update _ filter _ _ | .replaceOne filter _ _ | .delete _ filter =>
    ∀ f, Filter.parse filter = .ok f → f.Timeless
  | _ => True

namespace Row

variable {timed : Prop} {resolver resolver' : Resolver}

theorem document_twin {r r' : Row} (twin : r.Twin timed r') :
    Agree (fun d d' : Document => d.untimed = d'.untimed) r.document r'.document := by
  unfold Row.document
  rw [twin.data, twin.id]
  refine (Agree.refl r'.data.decode).bind ?_
  rintro fields _ rfl
  exact rfl

theorem documents_twin {rows rows' : List Row} (h : AllAlike timed resolver resolver' rows rows') :
    Agree (fun ds ds' : List Document => ds.map Document.untimed = ds'.map Document.untimed)
      (rows.mapM Row.document) (rows'.mapM Row.document) := by
  have each := Agree.mapM h fun r r' alike => document_twin alike.twin
  cases one : rows.mapM Row.document with
  | error e => cases other : rows'.mapM Row.document <;> rw [one, other] at each <;> exact each
  | ok ds =>
    cases other : rows'.mapM Row.document with
    | error e => rw [one, other] at each; exact each
    | ok ds' =>
      rw [one, other] at each
      show ds.map Document.untimed = ds'.map Document.untimed
      rw [← List.forall₂_eq_eq_eq, List.forall₂_map_left_iff, List.forall₂_map_right_iff]
      exact each

end Row

namespace Collection

open Dossier.Action

variable {timed strict : Prop} {name : CollectionName} {resolver resolver' : Resolver} {R : Database → Database → Prop}

/-! ## Inserting -/

theorem twin_prepare (document : Json) : Twin timed strict R Eq (prepare document) (prepare document) := by
  unfold prepare
  refine (Twin.ofStore (Agree.refl _)).bind ?_
  rintro ⟨supplied, body⟩ _ rfl
  cases supplied with
  | some value =>
    refine (Twin.ofStore (Agree.refl _)).bind ?_
    rintro id _ rfl
    exact .pure rfl
  | none =>
    refine Twin.nextId.bind ?_
    rintro id _ rfl
    exact .pure rfl

theorem twin_insert (d : NewDocument) : Twin timed strict (Twins name timed resolver resolver') Eq
    (insert ⟨name, resolver⟩ d) (insert ⟨name, resolver'⟩ d) := by
  refine Twin.now.bind fun now now' times => ?_
  exact (Twin.changed fun db db' h => h.insert d.id _ times).bind fun _ _ _ => .pure rfl

theorem twin_insertOne (document : Json) : Twin timed strict (Twins name timed resolver resolver') Eq
    (insertOne ⟨name, resolver⟩ document) (insertOne ⟨name, resolver'⟩ document) := by
  refine (twin_prepare document).bind ?_
  rintro d _ rfl
  exact (twin_insert d).bind fun _ _ _ => .pure rfl

theorem twin_insertMany (documents : List Json) : Twin timed strict (Twins name timed resolver resolver') Eq
    (insertMany ⟨name, resolver⟩ documents) (insertMany ⟨name, resolver'⟩ documents) := by
  refine (Twin.mapM twin_prepare documents).bind ?_
  rintro ready _ rfl
  exact .transaction ((Twin.forM twin_insert ready).bind fun _ _ _ => .pure rfl)

/-! ## Reading and deleting -/

section
variable {filter : Json} (apt : timed ∨ ∀ f, Filter.parse filter = .ok f → f.Timeless)

include apt

/-- What a filter is used for, when it can be read. -/
theorem twin_readFilter {α β : Type} {ρ : α → β → Prop} {g : Filter → Action α} {g' : Filter → Action β}
    (uses : ∀ f, Filter.parse filter = .ok f → timed ∨ f.Timeless → Twin timed strict R ρ (g f) (g' f)) :
    Twin timed strict R ρ (readFilter filter >>= g) (readFilter filter >>= g') := fun _ _ pair =>
  .ofRequest_bind pair fun f read => uses f read (apt.imp_right fun timeless => timeless f read) _ _ pair

variable (fits : ∀ f, Filter.parse filter = .ok f →
  (f.predicate resolver).Fits ∧ (f.predicate resolver').Fits)

include fits

variable (strict) in
theorem twin_find {l : Listing} (aptly : timed ∨ l.Timeless) : Twin timed strict (Twins name timed resolver resolver')
    (fun ds ds' => ds.map Document.untimed = ds'.map Document.untimed)
    (find ⟨name, resolver⟩ filter l) (find ⟨name, resolver'⟩ filter l) := by
  refine twin_readFilter apt fun f read apt => ?_
  obtain ⟨one, other⟩ := fits f read
  refine (Twin.rows fun db db' (h : Twins name timed resolver resolver' db db') => h.find apt aptly one other).bind ?_
  exact fun rows rows' alike => .ofStore (Row.documents_twin alike)

theorem twin_findOne : Twin timed strict (Twins name timed resolver resolver')
    (fun d d' => d.map Document.untimed = d'.map Document.untimed)
    (findOne ⟨name, resolver⟩ filter) (findOne ⟨name, resolver'⟩ filter) := by
  refine (twin_find _ apt fits (l := .first) (.inr nofun)).bind fun ds ds' same => .pure ?_
  rw [← List.head?_map, ← List.head?_map, same]

theorem twin_count : Twin timed strict (Twins name timed resolver resolver') Eq
    (count ⟨name, resolver⟩ filter) (count ⟨name, resolver'⟩ filter) :=
  twin_readFilter apt fun f read apt => Twin.number fun db db' (h : Twins name timed resolver resolver' db db') =>
    h.count apt (fits f read).1 (fits f read).2

omit fits

theorem twin_delete (cardinality : Cardinality) (fits : ∀ f, Filter.parse filter = .ok f →
      (Statement.delete (f.predicate resolver) cardinality).Fits ∧ (Statement.delete (f.predicate resolver') cardinality).Fits) :
    Twin timed strict (Twins name timed resolver resolver') Eq
    (delete ⟨name, resolver⟩ filter cardinality) (delete ⟨name, resolver'⟩ filter cardinality) :=
  twin_readFilter apt fun f read apt => Twin.changed fun _ _ h => h.delete apt cardinality (fits f read).1 (fits f read).2

end

end Collection

end Dossier
