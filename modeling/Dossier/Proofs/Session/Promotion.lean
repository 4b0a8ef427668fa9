import Dossier.Collection.Check
import Dossier.Proofs.Session.Invariant
import Dossier.Proofs.Session.Yields

/-!
# What promotions do to the database

`Database.promote` is a promotion without the session around it, and `Collection.spec_promotePath` says that the
steps of a promotion do just that inside a transaction, where no statement fails for a reason of its own. A
filling of the column that fails leaves no trace.
-/

namespace Dossier

namespace Database

/-- The column for a path, added unless it is there. -/
def ensureColumn (db : Database) (table column : String) : Except EngineError Database := do
  let t ← db.tableOf table
  if t.hasColumn column then return db else db.addColumn table column

/-- What a promotion does once the column is there: it makes the triggers, writes the values of the older rows if
they can be written, makes the index and the entry. -/
def install (db : Database) (name : CollectionName) (path : FieldPath) (unique : Bool) (time : Int) :
    Except EngineError Database := do
  let db ← db.replaceTriggers (name.copyTriggers path path.column)
  let db := (db.fillColumn name.text path.column path).toOption.getD db
  let db ← db.createIndex (name.columnIndex path.column unique)
  return db.recordPromotion (name.promotion path unique time)

/-- The database after a promotion at a time. -/
def promote (db : Database) (name : CollectionName) (path : FieldPath) (unique : Bool) (time : Int) :
    Except EngineError Database := do
  (← db.ensureColumn name.text path.column).install name path unique time

/-- What a promotion in the database is answered with. -/
def promoted (db : Database) (name : CollectionName) (path : FieldPath) (unique : Bool) (time : Int) : PromotedColumn :=
  ((db.promotion? name.text path).getD (name.promotion path unique time)).shown

theorem column_promoted (db : Database) (name : CollectionName) (path : FieldPath) (unique : Bool) (time : Int) :
    (db.promoted name path unique time).column = path.column := by
  unfold promoted
  cases found : db.promotion? name.text path with
  | none => rfl
  | some p =>
    have same : p.path = path := by simpa using List.find?_some found
    simp [Promotion.shown, p.named, same]

end Database

/-- The index over the columns of several paths; there is none over a single one. -/
def Database.createCompound (db : Database) (name : CollectionName) (paths : List FieldPath) :
    Except EngineError Database :=
  if 1 < paths.length then db.createIndex (name.compoundIndex (paths.map FieldPath.column)) else .ok db

namespace FieldPath

theorem targetColumn_eq_ok {path : FieldPath} {column : String} (h : path.targetColumn = .ok column) :
    column = path.column := by
  unfold targetColumn at h
  split at h
  · cases h
  · split at h
    · cases h
    · exact (Except.ok.inj h).symm

/-- A path that may be promoted begins with no reserved field, and its column has no reserved name. -/
theorem free_of_targetColumn {path : FieldPath} {column : String} (h : path.targetColumn = .ok column) :
    isReserved path.head = false ∧ ∀ c ∈ reservedColumns, Text.sameName path.column c = false := by
  unfold targetColumn at h
  split at h
  · cases h
  · rename_i unreserved
    split at h
    · cases h
    · rename_i unlike
      rw [List.any_eq_true, not_exists] at unlike
      exact ⟨by simpa using unreserved, fun c mem => Bool.eq_false_iff.2 fun same => unlike c ⟨mem, same⟩⟩

end FieldPath

/-- A collection may give a path its column: the column is not reserved, and no other path of it has one of the
name. -/
structure Database.Admits (db : Database) (name : CollectionName) (path : FieldPath) : Prop where
  target : path.targetColumn = .ok path.column
  free : ∀ other, db.pathOfColumn? name.text path.column = some other → other = path

/-- If a promoted path of the collection has a column of the name, the path is promoted already. -/
theorem Database.Admits.exists_entry {db : Database} {name : CollectionName} {path : FieldPath} (admits : db.Admits name path)
    {p : Promotion} (entry : p ∈ db.promotions) (own : p.collection = name.text)
    (column : Text.sameName p.column path.column = true) :
    ∃ q ∈ db.promotions, q.collection = name.text ∧ q.path = path := by
  have mine : p ∈ db.promotionsOf name.text := List.mem_filter.2 ⟨entry, by simpa using own⟩
  obtain ⟨first, found⟩ := Option.isSome_iff_exists.1
    (List.find?_isSome (p := fun p : Promotion => Text.sameName p.column path.column).2 ⟨p, mine, column⟩)
  obtain ⟨there, collection⟩ := List.mem_filter.1 (List.mem_of_find?_eq_some found)
  exact ⟨first, there, of_decide_eq_true collection, admits.free first.path (by simp [pathOfColumn?, found])⟩

namespace Collection

open Dossier.Action Outcome

variable (c : Collection) {db : Database}

/-- The steps of a promotion when its column is there. -/
def installColumn (c : Collection) (path : FieldPath) (column : String) (unique : Bool) : Action PromotedColumn := do
  alter fun db => db.replaceTriggers (c.name.copyTriggers path column)
  c.fillColumn path column
  alter fun db => db.createIndex (c.name.columnIndex column unique)
  let entry := c.name.promotion path unique (← now)
  alter fun db => .ok (db.recordPromotion entry)
  let recorded ← Action.read fun db => .ok (db.promotion? c.name.text path)
  return (recorded.getD entry).shown

/-- The steps of a promotion when no other path has its column. -/
def placeColumn (c : Collection) (path : FieldPath) (column : String) (unique : Bool) : Action PromotedColumn := do
  let present ← Action.read fun db => do return (← db.tableOf c.name.text).hasColumn column
  if !present then alter fun db => db.addColumn c.name.text column
  c.installColumn path column unique

/-- The steps of a promotion of several paths. -/
def promotePaths (c : Collection) (paths : List FieldPath) (unique : Bool) : Action (List PromotedColumn) := do
  let columns ← paths.mapM fun p => c.promotePath p unique
  if 1 < columns.length then
    alter fun db => db.createIndex (c.name.compoundIndex (columns.map PromotedColumn.column))
  return columns

theorem promoteCompound_eq (paths : List String) (unique : Bool) : c.promoteCompound paths unique = (do
    let paths ← ofRequest (paths.mapM FieldPath.parse)
    if unique && 1 < paths.length then throw (.compoundUnique (paths.map FieldPath.text))
    let columns ← Action.transaction (c.promotePaths paths unique)
    columns.forM c.reportPromotion
    return columns) := rfl

/-- The older rows are brought up to date, or left as they are. -/
theorem succeeds_fillColumn (path : FieldPath) (column : String) :
    Succeeds db (c.fillColumn path column) () ((db.fillColumn c.name.text column path).toOption.getD db) := by
  have filled : Spec True (· = db) (Action.transaction (alter fun db => db.fillColumn c.name.text column path))
      fun r after => (r = .ok () → db.fillColumn c.name.text column path = .ok after)
        ∧ (∀ e, r = .error e → (db.fillColumn c.name.text column path).toOption = none ∧ after = db) := by
    refine Spec.transaction (Q := fun r after => (r = .ok () → db.fillColumn c.name.text column path = .ok after)
        ∧ ∀ e, r = .error e → (db.fillColumn c.name.text column path).toOption = none) ?_ ?_ ?_
    · refine Spec.alter ?_ ?_
      · rintro _ after rfl eq
        exact ⟨fun _ => eq, by simp⟩
      · rintro e _ rfl own
        obtain ⟨e', eq, -⟩ := own trivial
        exact ⟨by simp, fun _ _ => by simp [eq, Except.toOption]⟩
    · intro _ after ended
      exact ⟨fun _ => ended.1 rfl, by simp⟩
    · intro e own
      obtain ⟨_, _, ended⟩ := own trivial
      exact ⟨by simp, fun _ _ => ⟨ended e rfl, rfl⟩⟩
  have outcome : Spec True (· = db) (attempt (Action.transaction (alter fun db => db.fillColumn c.name.text column path)))
      fun r after => (∃ x, r = .ok x) ∧ after = (db.fillColumn c.name.text column path).toOption.getD db := by
    refine Spec.attempt filled ?_
    rintro r after ⟨made, failed⟩
    refine ⟨⟨r, rfl⟩, ?_⟩
    cases r with
    | ok _ => simp [made rfl, Except.toOption]
    | error e =>
      obtain ⟨none_, same⟩ := failed e rfl
      simp [none_, same]
  refine Spec.bind outcome (fun r => ?_) fun e _ ⟨⟨_, failed⟩, _⟩ => nomatch failed
  cases r with
  | ok _ => exact Spec.pure _ fun _ same => ⟨rfl, same.2⟩
  | error e => exact Spec.report _ fun _ same => ⟨rfl, same.2⟩

theorem yields_fillColumn (path : FieldPath) (column : String) : Yields db (c.fillColumn path column) fun _ after =>
    after = (db.fillColumn c.name.text column path).toOption.getD db :=
  (c.succeeds_fillColumn path column).yields.mono fun _ _ done => done.2

/-- The steps of a promotion do not fail where `Database.promote` does not, if that says the same at every time. -/
theorem succeeds_promotePath {path : FieldPath} {unique : Bool} {shown : PromotedColumn} {after : Database}
    (admits : db.Admits c.name path)
    (made : ∀ time, db.promote c.name path unique time = .ok after ∧ after.promoted c.name path unique time = shown) :
    Succeeds db (c.promotePath path unique) shown after := by
  obtain ⟨placed, ensured, steps⟩ := bind_eq_ok.1 (made 0).1
  obtain ⟨synced, replaced, steps⟩ := bind_eq_ok.1 steps
  obtain ⟨indexed, created, -⟩ := bind_eq_ok.1 steps
  have recorded : ∀ time, indexed.recordPromotion (c.name.promotion path unique time) = after := fun time => by
    have all := (made time).1
    simp only [Database.promote, ensured, ok_bind, Database.install, replaced, created] at all
    exact Except.ok.inj all
  obtain ⟨t, found, placing⟩ := bind_eq_ok.1 ensured
  have installed : Succeeds placed (c.installColumn path path.column unique)
      shown after := by
    refine (Succeeds.alter replaced).bind ((c.succeeds_fillColumn path path.column).bind ((Succeeds.alter created).bind ?_))
    refine Succeeds.now_bind fun time => (Succeeds.alter (by rw [recorded])).bind ?_
    refine (Succeeds.read (g := fun db => .ok (db.promotion? c.name.text path)) rfl).bind ?_
    rw [← (made time).2]
    exact Succeeds.pure _
  have ready : Succeeds db (c.placeColumn path path.column unique)
      shown after := by
    refine (Succeeds.read (x := t.hasColumn path.column) (by rw [found]; rfl)).bind ?_
    cases has : t.hasColumn path.column with
    | true =>
      rw [has] at placing
      cases placing
      exact installed
    | false =>
      rw [has] at placing
      exact (Succeeds.alter placing).bind installed
  refine (Succeeds.ofRequest admits.target).bind
    ((Succeeds.read (g := fun db => .ok (db.pathOfColumn? c.name.text path.column)) rfl).bind ?_)
  cases taken : db.pathOfColumn? c.name.text path.column with
  | none => exact ready
  | some other =>
    obtain rfl := admits.free other taken
    simp only [ne_eq, not_true_eq_false, if_false]
    exact ready

/-- The steps of a promotion end as `Database.promote` says, at the time that the clock shows. -/
theorem yields_promotePath (path : FieldPath) (unique : Bool) :
    Yields db (c.promotePath path unique) fun p after => db.Admits c.name path
      ∧ ∃ time, db.promote c.name path unique time = .ok after ∧ p = after.promoted c.name path unique time := by
  have installed : ∀ placed : Database, db.Admits c.name path → db.ensureColumn c.name.text path.column = .ok placed →
      Yields placed (c.installColumn path path.column unique) fun p after => db.Admits c.name path
          ∧ ∃ time, db.promote c.name path unique time = .ok after ∧ p = after.promoted c.name path unique time := by
    intro placed admits ensured
    refine (Yields.alter _).bind fun _ triggered replaced => ?_
    refine (c.yields_fillColumn _ _).bind fun _ filled eq => ?_
    refine (Yields.alter _).bind fun _ indexed made => ?_
    refine Yields.now.bind fun time _ same => ?_
    subst same
    refine (Yields.alter _).bind fun _ after recorded => ?_
    refine (Yields.read _).bind fun found _ ⟨eq', same⟩ => ?_
    refine (Yields.pure _).mono fun p _ ⟨shown, same'⟩ => ?_
    subst same' same shown eq
    cases recorded
    cases eq'
    refine ⟨admits, time, ?_, rfl⟩
    simp [Database.promote, Database.install, ensured, replaced, made]
  have placed : db.Admits c.name path → Yields db (c.placeColumn path path.column unique) fun p after => db.Admits c.name path
          ∧ ∃ time, db.promote c.name path unique time = .ok after ∧ p = after.promoted c.name path unique time := by
    intro admits
    refine (Yields.read _).bind fun present mid ⟨looked, same⟩ => ?_
    subst same
    obtain ⟨t, found, has⟩ := bind_eq_ok.1 looked
    obtain rfl := Except.ok.inj has
    split
    · refine (Yields.alter _).bind fun _ placed added => installed placed admits ?_
      simp_all [Database.ensureColumn]
    · refine installed _ admits ?_
      simp_all [Database.ensureColumn]
  refine (Yields.ofRequest _).bind fun column mid ⟨target, same⟩ => ?_
  obtain rfl := FieldPath.targetColumn_eq_ok target
  subst same
  refine (Yields.read _).bind fun taken mid ⟨eq, same⟩ => ?_
  subst same
  cases eq
  split
  · rename_i other found
    split
    · exact (Yields.throw _ (R := fun _ _ => False)).bind fun _ _ => False.elim
    · rename_i own
      refine placed ⟨target, fun p eq => ?_⟩
      cases found.symm.trans eq
      simpa using own
  · rename_i none_
    exact placed ⟨target, fun p eq => (none_ p eq).elim⟩

/-- A promotion of several paths promotes one after another, each of them admitted, and then makes the index over them. What
every promotion keeps of the database and the answers so far holds in the end. -/
theorem yields_promotePaths (paths : List FieldPath) (unique : Bool) (P : List (FieldPath × PromotedColumn) → Database → Prop)
    (start : P [] db)
    (step : ∀ made db path time after, P made db → db.Admits c.name path → db.promote c.name path unique time = .ok after →
      P (made ++ [(path, after.promoted c.name path unique time)]) after) :
    Yields db (c.promotePaths paths unique) fun columns after => ∃ made mid, P made mid ∧ made.map Prod.fst = paths
      ∧ made.map Prod.snd = columns ∧ mid.createCompound c.name paths = .ok after := by
  have each : ∀ (paths : List FieldPath) (earlier : List (FieldPath × PromotedColumn)) (db : Database), P earlier db →
      Yields db (paths.mapM fun p => c.promotePath p unique) fun columns after => ∃ made, P (earlier ++ made) after
        ∧ made.map Prod.fst = paths ∧ made.map Prod.snd = columns
        ∧ columns.map PromotedColumn.column = paths.map FieldPath.column := by
    intro paths
    induction paths with
    | nil =>
      intro earlier db start
      refine (Yields.pure _).mono fun columns after ⟨made, same⟩ => ?_
      subst made same
      exact ⟨[], by simpa using start, rfl, rfl, rfl⟩
    | cons path rest ih =>
      intro earlier db start
      rw [List.mapM_cons]
      refine (c.yields_promotePath path unique).bind fun p mid ⟨admits, time, promoted, eq⟩ => ?_
      refine (ih _ _ (step _ _ _ _ _ start admits promoted)).bind fun ps last ⟨made, kept, firsts, seconds, columns⟩ => ?_
      refine (Yields.pure _).mono fun _ after ⟨all, same⟩ => ?_
      subst all same eq
      refine ⟨(path, mid.promoted c.name path unique time) :: made, ?_, ?_, ?_, ?_⟩
      · rwa [List.append_assoc] at kept
      · rw [List.map_cons, firsts]
      · rw [List.map_cons, seconds]
      · simp [columns, Database.column_promoted]
  refine (each paths [] db start).bind fun columns mid ⟨made, kept, firsts, seconds, same⟩ => ?_
  have several : 1 < columns.length ↔ 1 < paths.length := by
    rw [← List.length_map PromotedColumn.column, same, List.length_map]
  split
  · rename_i many
    refine (Yields.alter _).bind fun _ after indexed => (Yields.pure _).mono fun _ last ⟨eq, same'⟩ => ?_
    subst eq same'
    refine ⟨made, mid, kept, firsts, seconds, ?_⟩
    rw [Database.createCompound, if_pos (several.1 many), ← same, indexed]
  · rename_i few
    refine (Yields.pure _).mono fun _ last ⟨eq, same'⟩ => ?_
    subst eq same'
    exact ⟨made, last, kept, firsts, seconds, by rw [Database.createCompound, if_neg fun many => few (several.2 many)]⟩

section
variable {w v : Workspace}

/-- Reports change nothing but the events. -/
theorem result_reportPromotions (ps : List PromotedColumn) (w : Workspace) : ∃ events,
    (ps.forM c.reportPromotion).result w = (.ok (), { w with events }) := by
  induction ps generalizing w with
  | nil => exact ⟨w.events, rfl⟩
  | cons p rest ih => exact ih _

/-- A promotion that succeeds has made its steps in a level of its own. -/
theorem promote_succeeds {path : String} {unique : Bool} {p : PromotedColumn}
    (made : (c.promote path unique).result w = (.ok p, v)) : ∃ q u events, FieldPath.parse path = .ok q
      ∧ (Action.transaction (c.promotePath q unique)).result w = (.ok p, u) ∧ v = { u with events } := by
  obtain ⟨q, _, request, made⟩ := result_bind_eq_ok.1 made
  rw [result_ofRequest] at request
  obtain ⟨parsed, rfl⟩ := Prod.mk.inj request
  obtain ⟨p', u, level, made⟩ := result_bind_eq_ok.1 made
  obtain ⟨_, _, reported, made⟩ := result_bind_eq_ok.1 made
  cases reported
  cases made
  exact ⟨q, u, u.events ++ [_], eq_ok_of_mapError parsed, level, rfl⟩

/-- And so it succeeds. -/
theorem promote_of_level {path : String} {unique : Bool} {p : PromotedColumn} {q : FieldPath}
    (parsed : FieldPath.parse path = .ok q) (level : (Action.transaction (c.promotePath q unique)).result w = (.ok p, v)) :
    ∃ events, (c.promote path unique).result w = (.ok p, { v with events }) := by
  refine ⟨v.events ++ [.promotionCompleted c.name.text p.path p.unique],
    result_bind_eq_ok.2 ⟨q, w, by rw [result_ofRequest, parsed]; rfl, ?_⟩⟩
  exact result_bind_eq_ok.2 ⟨p, v, level, result_bind_eq_ok.2 ⟨(), _, rfl, rfl⟩⟩

theorem promoteCompound_of_level {paths : List String} {unique : Bool} {ps : List PromotedColumn} {qs : List FieldPath}
    (parsed : paths.mapM FieldPath.parse = .ok qs) (single : ¬ (unique = true ∧ 1 < qs.length))
    (level : (Action.transaction (c.promotePaths qs unique)).result w = (.ok ps, v)) :
    ∃ events, (c.promoteCompound paths unique).result w = (.ok ps, { v with events }) := by
  obtain ⟨events, reported⟩ := c.result_reportPromotions ps v
  refine ⟨events, ?_⟩
  rw [promoteCompound_eq]
  refine result_bind_eq_ok.2 ⟨qs, w, by rw [result_ofRequest, parsed]; rfl, ?_⟩
  have several : ¬ (unique && decide (1 < qs.length)) = true := by simpa using single
  rw [if_neg several]
  exact result_bind_eq_ok.2 ⟨ps, v, level, result_bind_eq_ok.2 ⟨(), _, reported, rfl⟩⟩

theorem promoteCompound_succeeds {paths : List String} {unique : Bool} {ps : List PromotedColumn}
    (made : (c.promoteCompound paths unique).result w = (.ok ps, v)) : ∃ qs u events,
      paths.mapM FieldPath.parse = .ok qs ∧ ¬ (unique = true ∧ 1 < qs.length)
      ∧ (Action.transaction (c.promotePaths qs unique)).result w = (.ok ps, u) ∧ v = { u with events } := by
  rw [promoteCompound_eq] at made
  obtain ⟨qs, _, request, made⟩ := result_bind_eq_ok.1 made
  rw [result_ofRequest] at request
  obtain ⟨parsed, rfl⟩ := Prod.mk.inj request
  split at made
  · obtain ⟨_, _, refused, -⟩ := result_bind_eq_ok.1 made
    cases refused
  · rename_i several
    obtain ⟨ps', u, level, made⟩ := result_bind_eq_ok.1 made
    obtain ⟨_, _, reported, made⟩ := result_bind_eq_ok.1 made
    obtain ⟨events, eq⟩ := c.result_reportPromotions ps' u
    cases eq.symm.trans reported
    cases made
    exact ⟨qs, u, events, eq_ok_of_mapError parsed, by simpa using several, level, rfl⟩

end

/-- What promotions of single paths and indexes over several keep, promotions keep. -/
theorem invariant_promote {inside : Prop} {P : Database → Prop} (path : String) (unique : Bool)
    (step : ∀ db path time after, P db → db.Admits c.name path → db.promote c.name path unique time = .ok after → P after) :
    Invariant inside P (c.promote path unique) := by
  refine (Invariant.ofRequest _).bind fun path => Invariant.bind ?_ fun _ => (Invariant.report _).bind fun _ => .pure _
  intro w orderly within start
  have made : Spec inside (· = w.current) (Action.transaction (c.promotePath path unique)) fun _ => P := by
    refine Spec.transaction (c.yields_promotePath path unique) ?_ fun _ _ => start
    intro p after yields
    obtain ⟨admits, time, promoted, -⟩ := yields p rfl
    exact step _ _ _ _ start admits promoted
  exact made w orderly within rfl

theorem invariant_promoteCompound {inside : Prop} {P : Database → Prop} (paths : List String) (unique : Bool)
    (step : ∀ db path time after, P db → db.Admits c.name path → db.promote c.name path unique time = .ok after → P after)
    (index : ∀ db columns after, P db → db.createIndex (c.name.compoundIndex columns) = .ok after → P after) :
    Invariant inside P (c.promoteCompound paths unique) := by
  have rest : ∀ paths : List FieldPath, Invariant inside P (do
      let columns ← Action.transaction (c.promotePaths paths unique)
      columns.forM c.reportPromotion
      return columns) := by
    intro paths
    refine Invariant.bind ?_ fun columns => (Invariant.forM (fun _ => .report _) columns).bind fun _ => .pure _
    intro w orderly within start
    have made : Spec inside (· = w.current) (Action.transaction (c.promotePaths paths unique)) fun _ => P := by
      refine Spec.transaction (c.yields_promotePaths paths unique (fun _ => P) start fun _ => step)
        (fun columns after yields => ?_) fun _ _ => start
      obtain ⟨-, mid, kept, -, -, made⟩ := yields columns rfl
      unfold Database.createCompound at made
      split at made
      · exact index _ _ _ kept made
      · cases made
        exact kept
    exact made w orderly within rfl
  rw [promoteCompound_eq]
  refine (Invariant.ofRequest _).bind fun paths => ?_
  split
  · exact (Invariant.throw _).bind fun _ => rest paths
  · exact rest paths

/-! ## Checks -/

section
variable {inside : Prop} {P : Database → Prop}
  (triggers : ∀ db check message condition ts after, P db →
    Check.triggers? c.name check message condition = some ts → db.replaceTriggers ts = .ok after → P after)
  (record : ∀ db entry, P db → P (db.recordCheck entry))

include triggers record

theorem invariant_installCheck (path : FieldPath) (column expression : String) :
    Invariant inside P (c.installCheck path column expression) := by
  unfold installCheck
  simp only
  split
  · exact .throw _
  · rename_i ts made
    refine (Invariant.alter fun db after h eq => triggers db _ _ _ _ after h made eq).bind fun _ => Invariant.now.bind fun time => ?_
    refine (Invariant.alter fun db after h eq => ?_).bind fun _ => (Invariant.read _).bind fun entry => ?_
    · cases eq
      exact record db _ h
    · cases entry with
      | some entry => exact .pure _
      | none => exact .throw _

/-- What the triggers of checks and their entries keep, a registration keeps. -/
theorem invariant_addCheck (path expression : String) : Invariant inside P (c.addCheck path expression) :=
  (Invariant.ofRequest _).bind fun _ => (Invariant.ofStore _).bind fun _ => (Invariant.ofRequest _).bind fun _ =>
    (Invariant.transaction (c.invariant_installCheck triggers record _ _ _)).bind fun _ =>
      (Invariant.report _).bind fun _ => .pure _

end

end Collection

end Dossier
