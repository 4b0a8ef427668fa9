import Dossier.Proofs.Store.Unique

/-!
# Indexes of promotions on reachable stores

An index goes by a name derived from its table, its columns and whether it is unique (`Index.Named`), and is left out where an
index of the name exists. `Host.indexed_of_reached`: in a store that calls lead to, after a promotion that succeeds there is
the index that it stands for, unless an index on other columns, or of another table, went by the same name before.
`Host.unindexed` is a promotion of two paths that succeeds without their index.
-/

namespace Dossier

open Text Dossier.Action Outcome

namespace Text

theorem length_of_sameName {a b : String} (same : sameName a b = true) : a.length = b.length := by
  have lengths := congrArg String.length (sameName_iff.1 same)
  simpa [foldCase, String.length_toList] using lengths

theorem length_joinWith_one (between x : String) : (joinWith between [x]).length = x.length := by
  simp [joinWith, List.intercalate]

theorem length_joinWith_cons (between x y : String) (xs : List String) : (joinWith between (x :: y :: xs)).length
    = x.length + between.length + (joinWith between (y :: xs)).length := by
  simp only [joinWith, String.length_ofList, List.map_cons, List.intercalate_cons_cons, List.length_append, String.length_toList]

/-- Each text is at most as long as all of them together. -/
theorem length_le_joinWith {between y : String} {xs : List String} (mem : y ∈ xs) : y.length ≤ (joinWith between xs).length := by
  induction xs with
  | nil => cases mem
  | cons x xs ih =>
    cases xs with
    | nil =>
      obtain rfl := List.mem_singleton.1 mem
      exact Nat.le_of_eq (length_joinWith_one between y).symm
    | cons z zs =>
      rw [length_joinWith_cons]
      rcases List.mem_cons.1 mem with rfl | mem
      · omega
      · have := ih mem
        omega

/-- More texts make more than a single one of them. -/
theorem length_joinWith_lt {between x y : String} {xs : List String} (mem : y ∈ xs) (several : 1 < xs.length)
    (wide : 0 < between.length) : (joinWith between [x, y]).length < (joinWith between (x :: xs)).length := by
  match xs with
  | [] | [_] => exact absurd several (by simp)
  | a :: b :: rest =>
    rw [length_joinWith_cons, length_joinWith_cons, length_joinWith_cons, length_joinWith_one]
    rcases List.mem_cons.1 mem with rfl | mem
    · omega
    · have : y.length ≤ (joinWith between (b :: rest)).length := length_le_joinWith mem
      omega

end Text

namespace Index

/-- Two indexes are on the same columns of one table, and both are unique or neither is. -/
structure Alike (i j : Index) : Prop where
  table : sameName i.table j.table = true
  columns : i.columns.map foldCase = j.columns.map foldCase
  unique : i.unique = j.unique

/-- An index goes by the name of another one, but is on other columns or of another table. -/
def Rival (i j : Index) : Prop :=
  sameName i.name j.name = true ∧ ¬ (sameName i.table j.table = true ∧ i.columns.map foldCase = j.columns.map foldCase)

/-- The name is made of the table, the columns and a last part that says whether the index is unique. -/
def Named (i : Index) : Prop := i.name = joinWith "__" (i.table :: (i.columns ++ [if i.unique then "uniq" else "idx"]))

variable {i j : Index}

theorem Alike.refl (i : Index) : i.Alike i := ⟨sameName_refl _, rfl, rfl⟩

/-- A name tells whether its index is unique. -/
theorem Named.unique_eq (hi : i.Named) (hj : j.Named) (same : sameName i.name j.name = true) : i.unique = j.unique := by
  have apart : ∀ {i j : Index}, i.Named → j.Named → i.unique = true → j.unique = false → sameName i.name j.name = false := by
    intro i j hi hj unique plain
    rw [hi, hj, joinWith_append, joinWith_append, unique, plain, if_pos rfl, if_neg Bool.false_ne_true]
    have start : ∀ s : String, s ++ "__" ++ "idx" = s ++ "_" ++ "_idx" := fun s => by
      rw [String.append_assoc, String.append_assoc]
      rfl
    rw [start]
    exact sameName_append_of_ne (by decide) (by decide) _ _
  cases ui : i.unique <;> cases uj : j.unique
  · rfl
  · rw [sameName_comm, apart hj hi uj ui] at same
    cases same
  · rw [apart hi hj ui uj] at same
    cases same
  · rfl

/-- Of two named indexes that go by one name, either is like the other, or they are rivals. -/
theorem Named.alike (hi : i.Named) (hj : j.Named) (same : sameName i.name j.name = true) (single : ¬ i.Rival j) : i.Alike j := by
  have ⟨table, columns⟩ := Decidable.of_not_not fun other => single ⟨same, other⟩
  exact ⟨table, columns, hi.unique_eq hj same⟩

end Index

namespace CollectionName

variable (name : CollectionName)

theorem named_columnIndex (column : String) (unique : Bool) : (name.columnIndex column unique).Named := rfl

theorem named_compoundIndex (columns : List String) : (name.compoundIndex columns).Named := rfl

/-- The index over several columns has a longer name than that of any of them. -/
theorem not_rival_columnIndex {column : String} {columns : List String} (mem : column ∈ columns) (several : 1 < columns.length)
    (unique : Bool) : ¬ (name.columnIndex column unique).Rival (name.compoundIndex columns) := by
  rintro ⟨same, -⟩
  have plain : unique = false := (name.named_columnIndex column unique).unique_eq (name.named_compoundIndex columns) same
  subst plain
  have parts : sameName (name.derived [column]) (name.derived columns) = true := by
    have names : sameName (name.derived ([column] ++ ["idx"])) (name.derived (columns ++ ["idx"])) = true := same
    rw [derived_append, derived_append, sameName_append_right, sameName_append_right] at names
    exact names
  have shorter : (joinWith "__" [name.text, column]).length < (joinWith "__" (name.text :: columns)).length :=
    length_joinWith_lt mem several (by decide)
  exact Nat.ne_of_lt shorter (length_of_sameName parts)

end CollectionName

namespace Database

variable {db after : Database} {name : CollectionName} {path : FieldPath} {unique : Bool} {time : Int}

/-- All indexes have the names that are derived for them. -/
def Named (db : Database) : Prop := ∀ i ∈ db.indexes, i.Named

/-- An index is found right after it is made, unless a rival goes by its name. -/
theorem Named.createIndex (h : db.Named) {i : Index} (named : i.Named) (made : db.createIndex i = .ok after) :
    after.Named ∧ ((∀ j ∈ db.indexes, ¬ j.Rival i) → ∃ j ∈ after.indexes, j.Alike i) := by
  rcases createIndex_eq_ok made with ⟨taken, rfl⟩ | ⟨-, -, -, rfl⟩
  · refine ⟨h, fun single => ?_⟩
    obtain ⟨j, mem, same⟩ := List.find?_isSome.1 taken
    exact ⟨j, mem, (h j mem).alike named same (single j mem)⟩
  · refine ⟨List.forall_mem_append.2 ⟨h, List.forall_mem_singleton.2 named⟩, fun _ => ?_⟩
    exact ⟨i, List.mem_append_right _ (List.mem_singleton_self i), .refl i⟩

/-- A promotion adds no index but its own, and that is found after it, unless a rival goes by its name. -/
theorem Named.promote (h : db.Named) (made : db.promote name path unique time = .ok after) : after.Named
    ∧ (∀ j ∈ after.indexes, j ∈ db.indexes ∨ j = name.columnIndex path.column unique)
    ∧ ((∀ j ∈ db.indexes, ¬ j.Rival (name.columnIndex path.column unique)) →
      ∃ j ∈ after.indexes, j.Alike (name.columnIndex path.column unique)) := by
  obtain ⟨last, -, indexes, rfl⟩ := promote_indexes made
  have same : (last.recordPromotion (name.promotion path unique time)).indexes = last.indexes := rfl
  unfold Database.Named
  rw [same]
  rcases indexes with ⟨taken, eq⟩ | eq
  · rw [eq]
    refine ⟨h, fun j => .inl, fun single => ?_⟩
    obtain ⟨j, mem, same⟩ := List.find?_isSome.1 taken
    exact ⟨j, mem, (h j mem).alike (name.named_columnIndex _ _) same (single j mem)⟩
  · rw [eq]
    refine ⟨List.forall_mem_append.2 ⟨h, List.forall_mem_singleton.2 (name.named_columnIndex _ _)⟩, fun j mem => ?_, fun _ => ?_⟩
    · exact (List.mem_append.1 mem).imp_right List.mem_singleton.1
    · exact ⟨_, List.mem_append_right _ (List.mem_singleton_self _), .refl _⟩

/-- The database has the names of its indexes after promotions of paths, and no index was added but those of the paths. -/
structure Grown (db : Database) (name : CollectionName) (unique : Bool) (made : List (FieldPath × PromotedColumn))
    (after : Database) : Prop where
  named : after.Named
  indexes : ∀ j ∈ after.indexes, j ∈ db.indexes ∨ ∃ p ∈ made, j = name.columnIndex p.1.column unique
  columns : ∀ p ∈ made, p.2.column = p.1.column

theorem Grown.promote {made : List (FieldPath × PromotedColumn)} {mid : Database} (h : db.Grown name unique made mid)
    (promoted : mid.promote name path unique time = .ok after) :
    db.Grown name unique (made ++ [(path, after.promoted name path unique time)]) after := by
  obtain ⟨named, added, -⟩ := h.named.promote promoted
  refine ⟨named, fun j hj => ?_, List.forall_mem_append.2 ⟨h.columns, List.forall_mem_singleton.2 (column_promoted ..)⟩⟩
  rcases added j hj with old | own
  · exact (h.indexes j old).imp_right fun ⟨p, mem, eq⟩ => ⟨p, List.mem_append_left _ mem, eq⟩
  · exact .inr ⟨_, List.mem_append_right _ (List.mem_singleton_self _), own⟩

/-- After promotions of several paths the index over them is found when it has been made, unless a rival went by its name
before. -/
theorem Grown.createCompound {made : List (FieldPath × PromotedColumn)} {mid : Database} (h : db.Grown name unique made mid)
    (several : 1 < made.length) (indexed : mid.createCompound name (made.map Prod.fst) = .ok after)
    (single : ∀ i ∈ db.indexes, ¬ i.Rival (name.compoundIndex ((made.map Prod.fst).map FieldPath.column))) :
    ∃ i ∈ after.indexes, i.Alike (name.compoundIndex ((made.map Prod.fst).map FieldPath.column)) := by
  rw [Database.createCompound, if_pos (by simpa using several)] at indexed
  refine (h.named.createIndex (name.named_compoundIndex _) indexed).2 fun j hj => ?_
  rcases h.indexes j hj with old | ⟨p, mem, rfl⟩
  · exact single j old
  · exact name.not_rival_columnIndex (List.mem_map_of_mem (List.mem_map_of_mem mem)) (by simpa using several) unique

/-- The names last. -/
theorem lasting_named : Lasting fun db => db.Mirroring ∧ db.Named where
  empty := ⟨mirroring_empty, by simp [Named, Database.empty]⟩
  version _ version h := ⟨h.1.version version, h.2⟩
  tables db name after h made := by
    refine ⟨h.1.createTable made, ?_⟩
    unfold createTable at made
    split at made
    · cases made
      exact h.2
    · split at made <;> cases made
      exact h.2
  stable db name r s n after h made := by
    obtain ⟨sound, wrote⟩ := run_eq_ok h.1.installed.sound made
    exact ⟨h.1.wrote sound wrote, fun i mem => h.2 i (wrote.indexes ▸ mem)⟩
  promotes _ _ _ _ _ _ h admits made := ⟨h.1.promote admits.target made, (h.2.promote made).1⟩
  compounds db name columns after h made :=
    ⟨lasting_mirroring.compounds db name columns after h.1 made, (h.2.createIndex (name.named_compoundIndex _) made).1⟩
  checks db name check message condition gs after h listed made := by
    refine ⟨lasting_mirroring.checks db name check message condition gs after h.1 listed made, ?_⟩
    obtain ⟨l, rfl, -⟩ := replaceTriggers_eq_ok made
    exact h.2
  records db entry h := by
    refine ⟨h.1.recordCheck entry, ?_⟩
    unfold recordCheck
    split <;> exact h.2
  puts db name id data n after h made := by
    refine ⟨lasting_mirroring.puts db name id data n after h.1 made, ?_⟩
    obtain ⟨-, _, cs, _, _, _, rfl⟩ := updateRows_eq_ok h.1.installed.sound (fun _ _ => rewrites_of_putBody) made
    have wrote : db.Wrote name.text (db.rewritten name.text cs) := .rewritten cs
    exact fun i mem => h.2 i (wrote.indexes ▸ mem)

end Database

namespace Collection

variable {c : Collection} {w v : Workspace}

/-- After a promotion that succeeds its index is found, unless a rival went by its name before. -/
theorem promote_indexed (orderly : w.Orderly) (named : w.current.Named) {path : String} {unique : Bool} {p : PromotedColumn}
    (made : (c.promote path unique).result w = (.ok p, v)) : ∃ q, FieldPath.parse path = .ok q ∧ p.column = q.column
      ∧ ((∀ i ∈ w.current.indexes, ¬ i.Rival (c.name.columnIndex q.column unique)) →
        ∃ i ∈ v.current.indexes, i.Alike (c.name.columnIndex q.column unique)) := by
  obtain ⟨q, u, events, parsed, level, rfl⟩ := c.promote_succeeds made
  obtain ⟨-, -, -, time, promoted, rfl⟩ := (c.yields_promotePath q unique).result_transaction orderly level
  exact ⟨q, parsed, Database.column_promoted _ _ _ _ _, (named.promote promoted).2.2⟩

/-- After a promotion of several paths that succeeds the index over them is found, unless a rival went by its name before. -/
theorem promoteCompound_indexed (orderly : w.Orderly) (named : w.current.Named) {paths : List String} {unique : Bool}
    {ps : List PromotedColumn} (made : (c.promoteCompound paths unique).result w = (.ok ps, v)) :
    ∃ qs, paths.mapM FieldPath.parse = .ok qs ∧ ps.map PromotedColumn.column = qs.map FieldPath.column
      ∧ (1 < paths.length → (∀ i ∈ w.current.indexes, ¬ i.Rival (c.name.compoundIndex (qs.map FieldPath.column))) →
        ∃ i ∈ v.current.indexes, i.Alike (c.name.compoundIndex (qs.map FieldPath.column))) := by
  obtain ⟨qs, u, events, parsed, -, level, rfl⟩ := c.promoteCompound_succeeds made
  obtain ⟨-, -, steps, mid, grown, rfl, rfl, compound⟩ := (c.yields_promotePaths qs unique (w.current.Grown c.name unique)
    ⟨named, fun _ => .inl, nofun⟩ fun _ _ _ _ _ grown _ promoted => grown.promote promoted).result_transaction orderly level
  refine ⟨_, parsed, by simpa using grown.columns, fun several single => ?_⟩
  have lengths : (steps.map Prod.fst).map (fun _ => ()) = paths.map fun _ => () := map_of_mapM (fun _ _ _ => rfl) parsed
  have lengths : steps.length = paths.length := by simpa using congrArg List.length lengths
  exact grown.createCompound (lengths ▸ several) compound single

end Collection

/-! ## Reachable stores -/

/-- In a store that starts without a database, wherever calls lead to: after a promotion that succeeds the table has an index
on the column of its path, unique if that is asked for, and after a promotion of several paths it has one on their columns in
their order; unless an index on other columns, or of another table, went by the name of that index before. -/
theorem Host.indexed_of_reached {disk : Disk} {settings : Settings} {ids : IdSource} {clock : Clock}
    {requests : List StoreRequest} (fresh : ∀ e ∈ disk.entries, ∀ f, e.2 ≠ .database f)
    (calls : ∀ r ∈ requests, r.Within (· ≠ .freeze)) {h : Host}
    (reached : ((start disk settings ids clock).callAll requests).2 = h) {s : Store} (opened : h.store = some s)
    {name : String} {x : Session} (session : s.session? name = some x) (c : Collection) :
    (∀ path unique p v, (c.promote path unique).result (s.workspace x) = (.ok p, v) →
      ∃ q, FieldPath.parse path = .ok q ∧ p.column = q.column
        ∧ ((∀ i ∈ (s.workspace x).current.indexes, ¬ i.Rival (c.name.columnIndex q.column unique)) →
          ∃ i ∈ v.current.indexes, i.Alike (c.name.columnIndex q.column unique)))
    ∧ ∀ paths unique ps v, (c.promoteCompound paths unique).result (s.workspace x) = (.ok ps, v) →
      ∃ qs, paths.mapM FieldPath.parse = .ok qs ∧ ps.map PromotedColumn.column = qs.map FieldPath.column
        ∧ (1 < paths.length →
          (∀ i ∈ (s.workspace x).current.indexes, ¬ i.Rival (c.name.compoundIndex (qs.map FieldPath.column))) →
          ∃ i ∈ v.current.indexes, i.Alike (c.name.compoundIndex (qs.map FieldPath.column))) := by
  have good : h.Good fun db => db.Mirroring ∧ db.Named := good_of_reached Database.lasting_named.kept fresh calls reached
  have here := good.workspace opened session
  exact ⟨fun _ _ _ _ made => Collection.promote_indexed here.orderly here.current.2 made,
    fun _ _ _ _ made => Collection.promoteCompound_indexed here.orderly here.current.2 made⟩

instance (i j : Index) : Decidable (i.Rival j) := inferInstanceAs (Decidable (_ ∧ ¬ (_ ∧ _)))

/-- The host after the promotion of the path `b.c`. -/
def Host.indexed : Host := (blank.callAll [.reopen none, .promoteNested]).2

/-- What the paths `c` and `b.c` are promoted to together, with an index over their columns. -/
theorem Host.indexed_of_reached_nested : ∃ s x ps v, indexed.store = some s ∧ s.session? "main" = some x
    ∧ (Collection.nested.promoteCompound ["c", "b.c"] false).result (s.workspace x) = (.ok ps, v)
    ∧ ∃ i ∈ v.current.indexes, i.Alike ⟨"a__c__b__c__idx", "a", ["c", "b__c"], false⟩ := by
  have evaluated : (indexed.store.bind fun s => (s.session? "main").map fun x =>
      (((Collection.nested.promoteCompound ["c", "b.c"] false).result (s.workspace x)).1.toOption.isSome,
        (s.workspace x).current.indexes.all fun i => !decide (i.Rival (Collection.nested.name.compoundIndex ["c", "b__c"]))))
      = some (true, true) := by decide +kernel
  obtain ⟨s, x, opened, session, eq⟩ := Host.exists_session_of_map evaluated
  obtain ⟨succeeds, single⟩ := Prod.mk.inj eq
  obtain ⟨ps, made⟩ := Option.isSome_iff_exists.1 succeeds
  have calls : ∀ r ∈ [.reopen none, .promoteNested], StoreRequest.Within (· ≠ .freeze) r := by
    simp [StoreRequest.promoteNested, StoreRequest.Within, Request.Within]
  have both :=
    (indexed_of_reached (Disk.start_fresh []) calls (h := indexed) (by rw [indexed, blank]) opened session Collection.nested).2
  obtain ⟨qs, parsed, -, provided⟩ := both ["c", "b.c"] false ps _ (Prod.ext (eq_ok_of_toOption made) rfl)
  have columns : qs.map FieldPath.column = ["c", "b__c"] := by
    cases parsed
    decide
  rw [columns] at provided
  refine ⟨s, x, ps, _, opened, session, Prod.ext (eq_ok_of_toOption made) rfl, provided (by decide) fun i mem => ?_⟩
  simpa using List.all_eq_true.1 single i mem

/-- The paths `b` and `c` are promoted together, and there is no index on their columns: the one of the path `b.c` goes by
its name. -/
theorem Host.unindexed : ∃ s x ps v, indexed.store = some s ∧ s.session? "main" = some x
    ∧ (Collection.nested.promoteCompound ["b", "c"] false).result (s.workspace x) = (.ok ps, v)
    ∧ ps.map PromotedColumn.column = ["b", "c"] ∧ ∀ i ∈ v.current.indexes, i.columns ≠ ["b", "c"] := by
  have evaluated : (indexed.store.bind fun s => (s.session? "main").map fun x =>
      (((Collection.nested.promoteCompound ["b", "c"] false).result (s.workspace x)).1.toOption.map
          fun ps => ps.map PromotedColumn.column,
        ((Collection.nested.promoteCompound ["b", "c"] false).result (s.workspace x)).2.current.indexes.map Index.columns))
      = some (some ["b", "c"], [["b__c"], ["b"], ["c"]]) := by decide +kernel
  obtain ⟨s, x, opened, session, eq⟩ := Host.exists_session_of_map evaluated
  obtain ⟨succeeds, columns⟩ := Prod.mk.inj eq
  obtain ⟨ps, made, shown⟩ := Option.map_eq_some_iff.1 succeeds
  refine ⟨s, x, ps, _, opened, session, Prod.ext (eq_ok_of_toOption made) rfl, shown, fun i mem eq => ?_⟩
  have listed := List.mem_map_of_mem (f := Index.columns) mem
  rw [columns, eq] at listed
  revert listed
  decide

end Dossier
