import Dossier.Proofs.Filter.Selecting
import Dossier.Proofs.Json.Distinct
import Dossier.Proofs.Update.Upheld

/-!
# Updates and repeated keys

Requests whose values repeat no key write no object that repeats one: `Tree.upheld_distinct` for the writes themselves,
`Update.upholds_distinct` and `Filter.distinct_of_parse` for what is read off a request.
-/

namespace Dossier

open Outcome

/-- No object of the tree has two members of one key. -/
def Tree.Distinct (t : Tree) : Prop := t.isDistinct = true

namespace Tree

theorem distinct_of_depth {t : Tree} (flat : t.depth = 0) : t.Distinct := by
  cases t with
  | null | bool | number | string => rfl
  | array items =>
    rw [depth] at flat
    omega
  | object members =>
    rw [depth] at flat
    omega

theorem upheld_distinct : Upheld Distinct (fun _ t => t.Distinct) fun _ => True where
  set _ value h := isDistinct_set value _ h
  remove _ h := isDistinct_remove _ h
  asRead h := isDistinct_asRead _ h
  decoded _ read := isDistinct_of_json? _ read

end Tree

theorem Json.nodup_keys {fields : Fields} (distinct : (object fields).tree.Distinct) : fields.keys.Nodup := by
  have members := (Tree.isDistinct_object.1 distinct).1
  rwa [Tree.memberKeys_fieldTrees] at members

/-- The values of an object that repeats no key repeat none. -/
theorem Json.distinct_entry {fields : Fields} {key : String} {v : Json} (distinct : (object fields).tree.Distinct)
    (mem : (key, v) ∈ fields) : v.tree.Distinct := by
  have values := (Tree.isDistinct_object.1 distinct).2
  have member : ∀ fields : Fields, (key, v) ∈ fields → (escapeString key, v.tree) ∈ fieldTrees fields := by
    intro fields
    induction fields with
    | nil => intro mem; cases mem
    | cons f rest ih =>
      intro mem
      rcases List.mem_cons.1 mem with rfl | later
      · exact List.mem_cons_self
      · exact List.mem_cons_of_mem _ (ih later)
  exact values _ (member fields mem)

/-- An update of a value that repeats no key writes nothing that does. -/
theorem Update.upholds_distinct {change : Json} {u : Update} (distinct : change.tree.Distinct) (parsed : parse change = .ok u) :
    u.Upholds Tree.Distinct (fun _ t => t.Distinct) fun _ => True := by
  cases u with
  | replace body =>
    obtain ⟨rfl, -⟩ := parse_replace parsed
    exact distinct
  | change c =>
    obtain ⟨operators, rfl, sets⟩ := parse_set parsed
    refine ⟨fun _ _ => trivial, fun e mem => ?_, fun _ _ _ flat => Tree.distinct_of_depth flat⟩
    obtain ⟨operator, fields, key, operand, value⟩ := sets e mem
    exact Json.distinct_entry (Json.distinct_entry distinct operand) value

/-- What a filter of a value that repeats no key pins repeats none. -/
theorem Filter.distinct_of_parse {filter : Json} {f : Filter} (distinct : filter.tree.Distinct) (parsed : parse filter = .ok f) :
    ∀ e ∈ f.equalities, e.2.tree.Distinct := by
  intro e mem
  obtain ⟨entries, name, value, rfl, entry, pinned⟩ := mem_equalities parsed mem
  have here := Json.distinct_entry distinct entry
  rcases pinned with rfl | ⟨operators, rfl, operand⟩
  · exact here
  · exact Json.distinct_entry here operand

/-! ## Requests -/

/-- No value of the request repeats a key, and it neither freezes the collection nor puts a text in the place of a body. -/
def CollectionRequest.Distinct : CollectionRequest → Prop
  | insertOne document => document.tree.Distinct
  | insertMany documents => ∀ d ∈ documents, d.tree.Distinct
  | update _ filter change _ => filter.tree.Distinct ∧ change.tree.Distinct
  | replaceOne filter replacement _ => filter.tree.Distinct ∧ replacement.tree.Distinct
  | freeze | putBody _ _ => False
  | _ => True

theorem CollectionRequest.Distinct.thaws {r : CollectionRequest} (distinct : r.Distinct) : r ≠ .freeze := by
  rintro rfl
  exact distinct

/-- What such a request writes repeats no key. -/
theorem CollectionRequest.Distinct.writes {r : CollectionRequest} (distinct : r.Distinct) :
    r.Writes (Body.Upholds Tree.Distinct) := by
  have writes : ∀ (filter change : Json) (upsert : Bool) (u : Update), filter.tree.Distinct → change.tree.Distinct →
      Update.parse change = .ok u → u.Writes (Body.Upholds Tree.Distinct) filter upsert := by
    intro filter change upsert u pinned distinct parsed
    have upholds := Update.upholds_distinct distinct parsed
    exact ⟨Tree.upheld_distinct.keeps upholds, fun _ f read =>
      Tree.upheld_distinct.inserts upholds rfl fun _ _ e mem _ _ => Filter.distinct_of_parse pinned read e mem⟩
  cases r with
  | insertOne document => exact Tree.upheld_distinct.brings distinct fun _ _ => trivial
  | insertMany documents => exact fun d mem => Tree.upheld_distinct.brings (distinct d mem) fun _ _ => trivial
  | update cardinality filter change upsert => exact fun u parsed => writes filter change upsert u distinct.1 distinct.2 parsed
  | replaceOne filter replacement upsert =>
    exact fun body parsed => writes filter replacement upsert _ distinct.1 distinct.2 parsed
  | putBody id data => exact distinct.elim
  | _ => trivial

end Dossier
