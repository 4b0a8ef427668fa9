import Dossier.Proofs.Database.Giving

/-!
# Unique promotions

The index of a unique promotion is named after the collection and the column, and is left out where an index of the name
exists. `Database.Enforcing` says what the store keeps in spite of that: for every unique entry of the registry that has
no rival, the index is there. As the column mirrors the bodies, no two rows hold equal values at the path
(`Database.Enforcing.distinct`).
-/

namespace Dossier

open Text Outcome

theorem Text.joinWith_append (between x : String) (xs : List String) (last : String) :
    joinWith between (x :: (xs ++ [last])) = joinWith between (x :: xs) ++ between ++ last := by
  have lists : ∀ (x : List Char) (xs : List (List Char)), List.intercalate between.toList (x :: (xs ++ [last.toList]))
      = List.intercalate between.toList (x :: xs) ++ between.toList ++ last.toList := by
    intro x xs
    induction xs generalizing x with
    | nil => simp [List.intercalate]
    | cons y ys ih =>
      rw [List.cons_append, List.intercalate_cons_cons, List.intercalate_cons_cons, ih]
      simp
  apply String.toList_injective
  simpa [joinWith] using lists x.toList (xs.map String.toList)

/-! ## Names of indexes -/

namespace Site

/-- The unique index on the column of the site. -/
def key (s : Site) : Index := ⟨s.stem ++ "__uniq", s.collection, [s.column], true⟩

theorem key_name_same {s q : Site} : sameName s.key.name q.key.name = sameName s.stem q.stem := sameName_append_right _ _ _

end Site

/-- The index has the name of no unique index on a column. -/
def Index.Apart (i : Index) : Prop := ∀ s : Site, sameName i.name s.key.name = false

namespace CollectionName

variable (name : CollectionName)

theorem derived_append (parts : List String) (last : String) :
    name.derived (parts ++ [last]) = name.derived parts ++ "__" ++ last := joinWith_append _ _ _ _

/-- Names of indexes that are not unique end differently. -/
theorem apart_of_derived {i : Index} {parts : List String} (named : i.name = name.derived (parts ++ ["idx"])) : i.Apart := by
  intro s
  have start : i.name = name.derived parts ++ "_" ++ "_idx" := by
    rw [named, derived_append, String.append_assoc, String.append_assoc]
    rfl
  have tail : s.key.name = s.stem ++ "__" ++ "uniq" := by
    rw [String.append_assoc]
    rfl
  rw [start, tail]
  exact sameName_append_of_ne (by decide) (by decide) _ _

/-- The index of a promotion is the key of its site, or has the name of none. -/
theorem columnIndex_cases (path : FieldPath) (unique : Bool) :
    (unique = true ∧ name.columnIndex path.column unique = (⟨name.text, path⟩ : Site).key)
      ∨ (unique = false ∧ (name.columnIndex path.column unique).Apart) := by
  cases unique with
  | false => exact .inr ⟨rfl, name.apart_of_derived (show _ = name.derived ([path.column] ++ ["idx"]) from rfl)⟩
  | true =>
    have named := name.derived_pair path.column "uniq"
    exact .inl ⟨rfl, congrArg (Index.mk · name.text [path.column] true) named⟩

end CollectionName

/-! ## Entries of the registry -/

namespace Promotion

/-- Entries of one path of one collection. -/
def SameSite (p q : Promotion) : Prop := p.collection = q.collection ∧ p.path = q.path

theorem SameSite.eq {p q : Promotion} (h : p.SameSite q) : (⟨p.collection, p.path⟩ : Site) = ⟨q.collection, q.path⟩ := by
  rw [h.1, h.2]

end Promotion

/-- No two rows hold equal values at the path; null equals nothing. -/
def Table.Distinct (t : Table) (path : FieldPath) : Prop :=
  t.rows.Pairwise fun r s => Value.test .eq .none .binary (r.data.extract path) (s.data.extract path) ≠ some true

namespace Database

/-- What an entry of the registry is after another one has been entered: an old one, or the one of its path, unique if
either of them is. -/
theorem mem_enter {e p : Promotion} {l : List Promotion} (mem : p ∈ enter e l) :
    p ∈ l ∨ (p.SameSite e ∧ (p.unique = true → e.unique = true ∨ ∃ q ∈ l, q.SameSite e ∧ q.unique = true)) := by
  induction l with
  | nil =>
    obtain rfl := List.mem_singleton.1 mem
    exact .inr ⟨⟨rfl, rfl⟩, .inl⟩
  | cons q rest ih =>
    unfold enter at mem
    split at mem
    · rename_i same
      simp only [Bool.and_eq_true, decide_eq_true_eq] at same
      rcases List.mem_cons.1 mem with rfl | later
      · refine .inr ⟨same, fun unique => ?_⟩
        rcases Bool.or_eq_true_iff.1 unique with old | new
        · exact .inr ⟨q, List.mem_cons_self, same, old⟩
        · exact .inl new
      · exact .inl (List.mem_cons_of_mem _ later)
    · rcases List.mem_cons.1 mem with rfl | later
      · exact .inl List.mem_cons_self
      · rcases ih later with old | ⟨same, unique⟩
        · exact .inl (List.mem_cons_of_mem _ old)
        · refine .inr ⟨same, fun h => (unique h).imp_right ?_⟩
          rintro ⟨r, hr, rest⟩
          exact ⟨r, List.mem_cons_of_mem _ hr, rest⟩

/-! ## The invariant -/

/-- The mirrors are kept, indexes with the name of a unique one are that of a promoted path, and every unique entry without
a rival has its index. -/
structure Enforcing (db : Database) : Prop where
  mirroring : db.Mirroring
  named : ∀ i ∈ db.indexes, i.Apart ∨ ∃ s ∈ db.sites, i = s.key
  keys : ∀ p ∈ db.promotions, p.unique = true → Site.Free db.sites ⟨p.collection, p.path⟩ →
    ∃ q : Site, Site.Alike ⟨p.collection, p.path⟩ q ∧ q.key ∈ db.indexes

variable {db after : Database} {p : Promotion}

/-! ## What a promotion does to the indexes -/

theorem ensureColumn_schema {table column : String} (made : db.ensureColumn table column = .ok after) :
    after.indexes = db.indexes ∧ after.promotions = db.promotions := by
  obtain ⟨t, -, made⟩ := bind_eq_ok.1 made
  split at made
  · cases made
    exact ⟨rfl, rfl⟩
  · obtain ⟨u, -, made⟩ := bind_eq_ok.1 made
    split at made
    · cases made
    · cases made
      exact ⟨rfl, rfl⟩

/-- A promotion leaves the indexes as they are, if one has the name of its own, or adds its own, and makes the entry. -/
theorem promote_indexes {name : CollectionName} {path : FieldPath} {unique : Bool} {time : Int}
    (made : db.promote name path unique time = .ok after) : ∃ last : Database, last.promotions = db.promotions
      ∧ (((db.index? (name.columnIndex path.column unique).name).isSome = true ∧ last.indexes = db.indexes)
        ∨ last.indexes = db.indexes ++ [name.columnIndex path.column unique])
      ∧ after = last.recordPromotion (name.promotion path unique time) := by
  obtain ⟨placed, synced, filled, last, ensured, triggered, written, indexed, rfl⟩ := promote_steps made
  obtain ⟨indexes, promotions⟩ := ensureColumn_schema ensured
  obtain ⟨l, rfl, -⟩ := replaceTriggers_eq_ok triggered
  have indexes : filled.indexes = db.indexes := by rw [written.rest]; exact indexes
  have promotions : filled.promotions = db.promotions := by rw [written.rest]; exact promotions
  refine ⟨last, ?_⟩
  rcases createIndex_eq_ok indexed with ⟨taken, rfl⟩ | ⟨t, -, -, rfl⟩
  · rw [index?, indexes] at taken
    exact ⟨promotions, .inl ⟨taken, indexes⟩, rfl⟩
  · exact ⟨promotions, .inr (congrArg (· ++ _) indexes), rfl⟩

namespace Enforcing

/-- Where neither the registry nor an index changes, only the mirrors matter. -/
theorem congr (h : db.Enforcing) (mirroring : after.Mirroring) (promotions : after.promotions = db.promotions)
    (indexes : after.indexes = db.indexes) : after.Enforcing := by
  have sites : after.sites = db.sites := by rw [Database.sites, promotions, Database.sites]
  refine ⟨mirroring, ?_, ?_⟩
  · rw [indexes, sites]
    exact h.named
  · rw [promotions, indexes, sites]
    exact h.keys

/-- An index with a name of its own is made. -/
theorem createIndex (h : db.Enforcing) {i : Index} (apart : i.Apart) (mirroring : after.Mirroring)
    (made : db.createIndex i = .ok after) : after.Enforcing := by
  rcases createIndex_eq_ok made with ⟨-, rfl⟩ | ⟨t, -, -, rfl⟩
  · exact h
  · refine ⟨mirroring, fun j hj => ?_, fun p mem unique free => ?_⟩
    · rcases List.mem_append.1 hj with old | new
      · exact h.named j old
      · exact .inl (List.mem_singleton.1 new ▸ apart)
    · obtain ⟨q, alike, key⟩ := h.keys p mem unique free
      exact ⟨q, alike, List.mem_append_left _ key⟩

/-- A promotion makes its index unless there is one of its name. -/
theorem promote (h : db.Enforcing) {name : CollectionName} {path : FieldPath} {unique : Bool} {time : Int} (mirroring : after.Mirroring)
    (made : db.promote name path unique time = .ok after) : after.Enforcing := by
  obtain ⟨last, promotions, indexed, rfl⟩ := promote_indexes made
  let n : Site := ⟨name.text, path⟩
  have sites : last.sites = db.sites := by rw [Database.sites, promotions, Database.sites]
  have known : ∀ s ∈ db.sites, s ∈ (last.recordPromotion (name.promotion path unique time)).sites := fun s mem =>
    mem_sites_recordPromotion.2 (.inr (sites ▸ mem))
  have kept : ∀ i ∈ db.indexes, i ∈ last.indexes := by
    rcases indexed with ⟨-, same⟩ | made
    · exact fun i mem => same ▸ mem
    · exact fun i mem => made ▸ List.mem_append_left _ mem
  have old : ∀ q ∈ db.promotions, q.unique = true →
      Site.Free (last.recordPromotion (name.promotion path unique time)).sites ⟨q.collection, q.path⟩ →
      ∃ s : Site, Site.Alike ⟨q.collection, q.path⟩ s ∧ s.key ∈ last.indexes := by
    intro q mem unique free
    obtain ⟨s, alike, key⟩ := h.keys q mem unique fun s mem => free s (known s mem)
    exact ⟨s, alike, kept _ key⟩
  refine ⟨mirroring, fun i mem => ?_, fun p mem unique_ free => ?_⟩
  · have earlier : i ∈ db.indexes →
        i.Apart ∨ ∃ s ∈ (last.recordPromotion (name.promotion path unique time)).sites, i = s.key := fun mem =>
      (h.named i mem).imp_right (Exists.imp fun s => And.imp_left (known s))
    rcases indexed with ⟨-, same⟩ | made
    · exact earlier (same ▸ mem)
    · rw [show (last.recordPromotion (name.promotion path unique time)).indexes = last.indexes from rfl, made] at mem
      rcases List.mem_append.1 mem with mem | new
      · exact earlier mem
      · obtain rfl := List.mem_singleton.1 new
        rcases name.columnIndex_cases path unique with ⟨-, eq⟩ | ⟨-, apart⟩
        · exact .inr ⟨n, mem_sites_recordPromotion.2 (.inl rfl), eq⟩
        · exact .inl apart
  · rcases mem_enter mem with mem | ⟨same, entered⟩
    · exact old p (promotions ▸ mem) unique_ free
    · rcases entered unique_ with new | ⟨q, mem, same', unique'⟩
      · -- the entry is new: its index has been made, or one of its name was there, which belongs to the same path
        rw [same.eq] at free ⊢
        have key := (name.columnIndex_cases path unique).resolve_right fun plain => by rw [plain.1] at new; cases new
        rcases indexed with ⟨taken, eq⟩ | made
        · obtain ⟨j, mem, named⟩ := List.find?_isSome.1 taken
          rw [key.2] at named
          rcases h.named j mem with apart | ⟨s, hs, rfl⟩
          · rw [apart n] at named
            cases named
          · rw [Site.key_name_same] at named
            exact ⟨s, free.alike (known s hs) (sameName_symm named), kept _ mem⟩
        · exact ⟨n, .refl n, made ▸ List.mem_append_right _ (List.mem_singleton.2 key.2.symm)⟩
      · rw [same.eq] at free ⊢
        rw [← same'.eq] at free ⊢
        exact old q (promotions ▸ mem) unique' free

/-- No two rows of the collection of a unique entry without a rival hold equal values at its path. -/
theorem distinct (h : db.Enforcing) (entry : p ∈ db.promotions) (unique : p.unique = true)
    (free : Site.Free db.sites ⟨p.collection, p.path⟩) : ∃ t, db.table? p.collection = some t ∧ t.Distinct p.path := by
  obtain ⟨⟨t, found, -, mirrored⟩, -⟩ := h.mirroring.mirrors ⟨p.collection, p.path⟩ (List.mem_map_of_mem entry) free
  obtain ⟨q, alike, key⟩ := h.keys p entry unique free
  refine ⟨t, found, ?_⟩
  obtain ⟨mem, name⟩ := mem_of_table? found
  have on : q.key ∈ db.indexesOn t.name := by
    refine List.mem_filter.2 ⟨key, ?_⟩
    exact sameName_trans (sameName_symm alike.1) (sameName_symm name)
  have apart := h.mirroring.installed.sound.keyed.separates t mem q.key on rfl
  have rowids : t.rows.Pairwise fun r s => r.rowid ≠ s.rowid :=
    List.pairwise_map.1 (h.mirroring.installed.sound.tidy.rowids t mem)
  refine rowids.imp_of_mem fun {r s} hr hs ne => ?_
  have differ := apart r hr s hs ne
  have column : q.column = Site.column ⟨p.collection, p.path⟩ := alike.column_eq.symm
  simp only [Index.sameKey, Site.key, List.all_cons, List.all_nil, Bool.and_true, column, mirrored r hr, mirrored s hs] at differ
  simpa using differ

end Enforcing

end Database

end Dossier
