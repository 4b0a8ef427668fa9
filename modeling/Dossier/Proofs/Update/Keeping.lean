import Dossier.Collection.Documents
import Dossier.Proofs.Json.Editing
import Dossier.Proofs.Outcome
import Dossier.Proofs.Update.Steps
import Dossier.Update.InPlace

/-!
# What updates keep of a body

An update is a sequence of small changes, in the engine as in the store: what each of them keeps, the update keeps
(`Changes.edit_keeps`, `Update.apply_keeps`). The changes of the engine leave a written tree written.
-/

namespace Dossier

open Outcome Text

namespace Changes

/-- What the removals and the assignments keep, an edit of a body keeps. -/
theorem edit_keeps {P : Tree → Prop} {c : Changes} {body : Tree}
    (removes : ∀ p ∈ c.unset, ∀ t, P t → P (t.remove p.segments))
    (assigns : ∀ a ∈ c.assignments, ∀ t, P t → P (Tree.set (a.value body) a.path.segments t)) (start : P body) :
    P (c.edit body) := by
  have removed : P (c.unset.foldl (fun t p => t.remove p.segments) body) :=
    List.foldlRecOn c.unset _ start fun t h p mem => removes p mem t h
  exact List.foldlRecOn c.assignments _ removed fun t h a mem => assigns a mem t h

theorem path_mem_of_mem_steps {c : Changes} {s : Step} (mem : s ∈ c.steps) : s.path ∈ c.paths :=
  c.steps_perm.subset (List.mem_map_of_mem mem)

theorem path_mem_of_mem_assignments {c : Changes} {a : Assignment} (mem : a ∈ c.assignments) : a.path ∈ c.paths := by
  simp only [assignments, List.mem_append, List.mem_map] at mem
  simp only [paths, List.mem_append, List.mem_map]
  rcases mem with ⟨e, he, rfl⟩ | ⟨e, he, rfl⟩
  · exact .inl (.inl ⟨e, he, rfl⟩)
  · exact .inr ⟨e, he, rfl⟩

/-- An edit leaves a written tree written. -/
theorem isWritten_edit {c : Changes} {body : Tree} (written : body.IsWritten) : (c.edit body).IsWritten := by
  have keys : ∀ s : String, Tree.IsEscaped (escapeString s) := fun s => ⟨s, rfl⟩
  refine edit_keeps (fun p _ t written => written.remove p.segments) (fun a _ t written => ?_) written
  have value : (a.value body).IsWritten := by
    cases a with
    | document path v => exact v.isWritten_tree
    | sum path delta => exact Tree.isWritten_ofValue fun _ sum => Value.fits_of_add sum
  exact value.set keys a.path.segments written

end Changes

/-- The body of a document is the document without its identifier; it has no reserved field at its top. -/
theorem NewDocument.split_eq_ok {document : Json} {id : Option Json} {body : Fields} (made : split document = .ok (id, body)) :
    ∃ fields, document = .object fields ∧ body = bodyOf fields ∧ ∀ k ∈ Fields.keys body, isReserved k = false := by
  unfold split at made
  split at made
  · rename_i fields
    split at made
    · cases made
    · split at made
      · cases made
      · rename_i none_
        cases made
        exact ⟨fields, rfl, rfl, fun k mem => by simpa using List.find?_eq_none.1 none_ k mem⟩
  · cases made

namespace Update

/-- What the steps keep, an update that does not fail keeps. -/
theorem apply_keeps {P : Fields → Prop} {c : Changes} {fields after : Fields}
    (steps : ∀ s ∈ c.steps, ∀ fields after, P fields → s.apply fields = .ok after → P after) (start : P fields)
    (made : (change c).apply fields = .ok after) : P after := by
  have all : ∀ (l : List Step) (fields : Fields), (∀ s ∈ l, s ∈ c.steps) → P fields → Step.run l fields = (after, none) →
      P after := by
    intro l
    induction l with
    | nil => rintro fields - start ran; cases ran; exact start
    | cons s rest ih =>
      intro fields sub start ran
      obtain ⟨here, others⟩ := List.forall_mem_cons.1 sub
      rw [Step.run] at ran
      cases applied : s.apply fields with
      | error e => rw [applied] at ran; cases ran
      | ok next =>
        rw [applied] at ran
        exact ih next others (steps s here fields next start applied) ran
  rw [apply, Update.run] at made
  cases ran : Step.run c.steps fields with
  | mk body failure =>
    rw [ran] at made
    cases failure with
    | some e => cases made
    | none =>
      cases made
      exact all c.steps fields (fun _ mem => mem) start ran

/-! ## What an upsert inserts -/

/-- What the writes of the pinned fields keep holds of the body that the update is then applied to. -/
theorem synthesize_keeps {P : Fields → Prop} {u : Update} {f : Filter} {id : Option String} {body : Fields}
    (pins : ∀ e ∈ f.equalities, ∀ path fields after, e.1.field = .body path → P fields →
      fields.setAt path e.2 = .ok after → P after)
    (start : P []) (made : u.synthesize f = .ok (id, body)) : ∃ described, P described ∧ u.apply described = .ok body := by
  obtain ⟨⟨found, described⟩, pinned, made⟩ := bind_eq_ok.1 made
  refine ⟨described, ?_, ?_⟩
  · refine foldlM_keeps (P := fun acc : Option String × Fields => P acc.2) (fun e mem acc acc' kept pinned => ?_) start pinned
    unfold pin at pinned
    split at pinned
    · obtain ⟨id, -, eq⟩ := bind_eq_ok.1 pinned
      cases eq
      exact kept
    · rename_i path field
      split at pinned
      · rename_i body set
        cases pinned
        exact pins e mem path _ _ field kept set
      · cases pinned
    · cases pinned
      exact kept
  · simp only at made
    split at made
    · cases made
      assumption
    · cases made

/-! ## Reading an update -/

theorem parsePath_eq_ok {raw : String} {path : FieldPath} (h : parsePath raw = .ok path) :
    FieldPath.parse raw = .ok path ∧ isReserved path.head = false := by
  obtain ⟨p, parsed, h⟩ := bind_eq_ok.1 h
  cases reserved : isReserved p.head with
  | true => simp [reserved] at h
  | false =>
    simp only [reserved] at h
    cases h
    exact ⟨parsed, reserved⟩

/-- The operators of an accepted update are read one after another. -/
theorem parse_operators {u : Json} {c : Changes} (h : parse u = .ok (.change c)) :
    ∃ fields, u = .object fields ∧ fields.foldlM addOperator .none = .ok c := by
  unfold parse at h
  split at h
  · rename_i fields
    refine ⟨fields, rfl, ?_⟩
    split at h
    · cases h
    · split at h
      · split at h
        · obtain ⟨changes, read, eq⟩ := map_eq_ok.1 h
          cases eq
          obtain ⟨changes, folded, read⟩ := bind_eq_ok.1 read
          cases empty : changes.isEmpty with
          | true => simp [empty] at read
          | false =>
            cases clash : Changes.conflict? changes.paths with
            | some p => simp [empty, clash] at read
            | none =>
              obtain rfl : changes = c := by simpa [empty, clash] using read
              exact folded
        · cases h
      · split at h <;> cases h
  · cases h

theorem parseUnset_heads {operand : Json} {ps : List FieldPath} (h : parseUnset operand = .ok ps) :
    ∀ p ∈ ps, isReserved p.head = false := by
  intro p mem
  unfold parseUnset at h
  split at h
  · obtain ⟨e, -, parsed⟩ := exists_of_mapM h mem
    exact (parsePath_eq_ok parsed).2
  · obtain ⟨item, -, parsed⟩ := exists_of_mapM h mem
    unfold parseUnsetItem at parsed
    split at parsed
    · exact (parsePath_eq_ok parsed).2
    · cases parsed
  · cases h

/-- An operator adds entries of which no path begins with a reserved field; what it sets are values of its operand. -/
theorem addOperator_eq_ok {c c' : Changes} {entry : String × Json} (h : addOperator c entry = .ok c') :
    (∃ es, (∀ e ∈ es, isReserved e.1.head = false ∧ ∃ fields key, entry.2 = .object fields ∧ (key, e.2) ∈ fields)
        ∧ c' = { c with set := c.set ++ es })
      ∨ (∃ ps, (∀ p ∈ ps, isReserved p.head = false) ∧ c' = { c with unset := c.unset ++ ps })
      ∨ ∃ es, (∀ e ∈ es, isReserved e.1.head = false) ∧ c' = { c with inc := c.inc ++ es } := by
  obtain ⟨operator, operand⟩ := entry
  unfold addOperator at h
  simp only at h
  split at h
  · obtain ⟨fields, operands, h⟩ := bind_eq_ok.1 h
    obtain ⟨es, read, h⟩ := bind_eq_ok.1 h
    cases h
    refine .inl ⟨es, fun e mem => ?_, rfl⟩
    obtain ⟨entry, there, made⟩ := exists_of_mapM read mem
    obtain ⟨p, parsed, eq⟩ := bind_eq_ok.1 made
    cases eq
    refine ⟨(parsePath_eq_ok parsed).2, ?_⟩
    unfold entries at operands
    split at operands
    · cases operands
      exact ⟨fields, entry.1, rfl, there⟩
    · cases operands
  · obtain ⟨ps, read, h⟩ := bind_eq_ok.1 h
    cases h
    exact .inr (.inl ⟨ps, parseUnset_heads read, rfl⟩)
  · obtain ⟨fields, -, h⟩ := bind_eq_ok.1 h
    obtain ⟨es, read, h⟩ := bind_eq_ok.1 h
    cases h
    refine .inr (.inr ⟨es, fun e mem => ?_, rfl⟩)
    obtain ⟨entry, -, made⟩ := exists_of_mapM read mem
    unfold parseInc at made
    split at made
    · obtain ⟨p, parsed, eq⟩ := bind_eq_ok.1 made
      cases eq
      exact (parsePath_eq_ok parsed).2
    · cases made
  · cases h

/-- No path of an accepted update begins with a reserved field. -/
theorem parse_heads {u : Json} {c : Changes} (h : parse u = .ok (.change c)) : ∀ p ∈ c.paths, isReserved p.head = false := by
  obtain ⟨fields, -, folded⟩ := parse_operators h
  refine foldlM_keeps (P := fun c : Changes => ∀ p ∈ c.paths, isReserved p.head = false) (fun entry _ c c' free added => ?_)
    (by simp [Changes.paths, Changes.none]) folded
  intro p mem
  simp only [Changes.paths, List.mem_append, List.mem_map] at mem free
  rcases addOperator_eq_ok added with ⟨es, heads, rfl⟩ | ⟨ps, heads, rfl⟩ | ⟨es, heads, rfl⟩
  all_goals simp only [List.mem_append] at mem
  · rcases mem with (⟨e, old | new, rfl⟩ | mem) | mem
    · exact free _ (.inl (.inl ⟨e, old, rfl⟩))
    · exact (heads e new).1
    · exact free _ (.inl (.inr mem))
    · exact free _ (.inr mem)
  · rcases mem with (mem | old | new) | mem
    · exact free _ (.inl (.inl mem))
    · exact free _ (.inl (.inr old))
    · exact heads p new
    · exact free _ (.inr mem)
  · rcases mem with mem | ⟨e, old | new, rfl⟩
    · exact free _ (.inl mem)
    · exact free _ (.inr ⟨e, old, rfl⟩)
    · exact heads e new

/-- What an accepted update sets are values of operands of its operators. -/
theorem parse_set {u : Json} {c : Changes} (h : parse u = .ok (.change c)) :
    ∃ operators, u = .object operators ∧ ∀ e ∈ c.set, ∃ operator fields key,
      (operator, Json.object fields) ∈ operators ∧ (key, e.2) ∈ fields := by
  obtain ⟨operators, rfl, folded⟩ := parse_operators h
  refine ⟨operators, rfl, ?_⟩
  refine foldlM_keeps (P := fun c : Changes => ∀ e ∈ c.set, ∃ operator fields key,
    (operator, Json.object fields) ∈ operators ∧ (key, e.2) ∈ fields) (fun entry there c c' known added => ?_)
    (by simp [Changes.none]) folded
  intro e mem
  rcases addOperator_eq_ok added with ⟨es, sets, rfl⟩ | ⟨ps, -, rfl⟩ | ⟨es, -, rfl⟩
  · rcases List.mem_append.1 mem with old | new
    · exact known e old
    · obtain ⟨-, fields, key, operand, value⟩ := sets e new
      exact ⟨entry.1, fields, key, operand ▸ there, value⟩
  · exact known e mem
  · exact known e mem

/-- A body that replaces another has no reserved field at its top. -/
theorem parse_replace {u : Json} {body : Fields} (h : parse u = .ok (.replace body)) :
    u = .object body ∧ ∀ k ∈ Fields.keys body, isReserved k = false := by
  unfold parse at h
  split at h
  · split at h
    · cases h
    · split at h
      · split at h
        · obtain ⟨_, -, eq⟩ := map_eq_ok.1 h
          cases eq
        · cases h
      · split at h
        · cases h
        · rename_i none_
          cases h
          exact ⟨rfl, fun k mem => by simpa using List.find?_eq_none.1 none_ k mem⟩
  · cases h

end Update

end Dossier
