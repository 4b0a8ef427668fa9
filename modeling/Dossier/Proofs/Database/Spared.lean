import Dossier.Proofs.Database.Giving
import Dossier.Proofs.Raw.Condition

/-!
# Databases without some checks

`Database.Spared`: the second database is the first without some triggers. When these ask formulas of the new bodies of a
table, every statement does the same to both, unless it gives a row a body that one of the triggers turns away (`Spared.run`).
-/

namespace Dossier

open Text Sql Outcome

namespace Formula

/-- The formula has a truth for the body, and is not false of it. -/
def Admits (φ : Formula) (b : Body) : Prop := ∃ truth, φ.truth? b = some truth ∧ truth ≠ some false

/-- The error for a body that is not admitted: the message where the formula is false, a fault where it has no truth. -/
def refusal (φ : Formula) (message : String) (b : Body) : EngineError :=
  match φ.truth? b with
  | none => .failure "malformed operand"
  | some _ => .constraint message

end Formula

namespace Trigger

/-- A trigger on a table that looks for new bodies of which the formula is not true, and complains with the message. -/
structure Asks (g : Trigger) (φ : Formula) (table message : String) : Prop where
  on : g.table = table
  event : g.event ≠ .anyUpdate
  action : ∃ violation, g.action = .check violation message ∧ ∀ scope : Scope, (∀ name, scope none name = none) →
    scope (some "NEW") "data" = some ⟨.current, .data⟩ → ∃ e, violation.resolve scope = some e
      ∧ ∀ (read : Place → Value) (b : Body), read ⟨.current, .data⟩ = .text b.text → e.holds read [] = (φ.truth? b).map Truth.not

/-- A trigger that does so, the names of its condition resolved. -/
def Weighs (p : Trigger) (φ : Formula) (message : String) : Prop :=
  ∃ violation, p.action = .check violation message ∧ ∀ (read : Place → Value) (b : Body),
    read ⟨.current, .data⟩ = .text b.text → violation.holds read [] = (φ.truth? b).map Truth.not

/-- One of the triggers turns the body away, with the error. -/
def TurnsAway (gs : List Trigger) (table : String) (b : Body) (e : EngineError) : Prop :=
  ∃ g ∈ gs, ∃ φ message, g.Asks φ table message ∧ ¬ φ.Admits b ∧ e = φ.refusal message b

variable {g p : Trigger} {φ : Formula} {table message : String} {t : Table}

theorem name_of_prepare (made : g.prepare t = .ok p) : p.name = g.name := by
  unfold prepare at made
  split at made
  · split at made <;> cases made
    rfl
  · cases made
    rfl

theorem column?_data (t : Table) : t.column? "data" = some .data := by
  have id : sameName "data" "id" = false := by decide
  simp [Table.column?, id]

/-- A trigger that asks a formula is ready on every table. -/
theorem Asks.prepare (asks : g.Asks φ table message) (t : Table) : ∃ p, g.prepare t = .ok p ∧ p.Weighs φ message := by
  obtain ⟨violation, action, resolves⟩ := asks.action
  have new : sameName "NEW" "new" = true := by decide
  obtain ⟨e, resolved, holds⟩ := resolves (t.triggerScope g.event) (fun _ => rfl) (by simp [Table.triggerScope, new, column?_data])
  refine ⟨{ g with action := .check e message }, ?_, e, rfl, holds⟩
  simp only [Trigger.prepare, action, resolved]

/-- Whatever formulas a trigger asks, it complains with one message, and where one of them has a truth that is known, so has the
other. -/
theorem Asks.agree {ψ : Formula} {table' message' : String} (asks : g.Asks φ table message) (other : g.Asks ψ table' message')
    (b : Body) : message = message' ∧ (φ.truth? b).map Truth.not = (ψ.truth? b).map Truth.not := by
  obtain ⟨violation, action, resolves⟩ := asks.action
  obtain ⟨violation', action', resolves'⟩ := other.action
  cases action.symm.trans action'
  obtain ⟨e, resolved, holds⟩ := resolves (Table.triggerScope ⟨"", [], []⟩ .insert) (fun _ => rfl) rfl
  obtain ⟨e', resolved', holds'⟩ := resolves' (Table.triggerScope ⟨"", [], []⟩ .insert) (fun _ => rfl) rfl
  cases resolved.symm.trans resolved'
  exact ⟨rfl, (holds (fun _ => .text b.text) b rfl).symm.trans (holds' (fun _ => .text b.text) b rfl)⟩

/-- Whatever formulas a trigger asks, they admit the same bodies. -/
theorem Asks.admits {ψ : Formula} {table' message' : String} (asks : g.Asks φ table message) (other : g.Asks ψ table' message')
    {b : Body} (admits : φ.Admits b) : ψ.Admits b := by
  have same := (asks.agree other b).2
  obtain ⟨truth, known, notFalse⟩ := admits
  rw [known] at same
  obtain ⟨truth', known', eq⟩ := Option.map_eq_some_iff.1 same.symm
  refine ⟨truth', known', ?_⟩
  rintro rfl
  rcases truth with _ | _ | _
  · cases eq
  · exact notFalse rfl
  · cases eq

/-- Whatever formulas a trigger asks, the refusals are the same. -/
theorem Asks.refusal_eq {ψ : Formula} {table' message' : String} (asks : g.Asks φ table message) (other : g.Asks ψ table' message')
    (b : Body) : φ.refusal message b = ψ.refusal message' b := by
  obtain ⟨rfl, same⟩ := asks.agree other b
  unfold Formula.refusal
  cases known : φ.truth? b <;> cases known' : ψ.truth? b <;> simp [known, known'] at same ⊢

namespace Weighs

variable (weighs : p.Weighs φ message)

include weighs

/-- Before a change the trigger lets a new body pass if the formula admits it. -/
theorem before_of_admits {read : Place → Value} {b : Body} (body : read ⟨.current, .data⟩ = .text b.text)
    (admits : φ.Admits b) : p.before read = .ok () := by
  obtain ⟨violation, action, holds⟩ := weighs
  obtain ⟨truth, known, notFalse⟩ := admits
  simp only [before, action, holds read b body, known, Option.map_some]
  rcases truth with _ | _ | _
  · rfl
  · exact absurd rfl notFalse
  · rfl

/-- Otherwise it fails. -/
theorem before_of_not_admits {read : Place → Value} {b : Body} (body : read ⟨.current, .data⟩ = .text b.text)
    (refuses : ¬ φ.Admits b) : p.before read = .error (φ.refusal message b) := by
  obtain ⟨violation, action, holds⟩ := weighs
  simp only [before, action, holds read b body, Formula.refusal]
  cases known : φ.truth? b with
  | none => rfl
  | some truth =>
    obtain rfl : truth = some false := Decidable.byContradiction fun other => refuses ⟨truth, known, other⟩
    rfl

/-- After a change it does nothing. -/
theorem after (row : Row) (db : Database) : Database.after row db p = .ok db := by
  obtain ⟨violation, action, -⟩ := weighs
  simp only [Database.after, action]

end Weighs

end Trigger

namespace Database

variable {db db' : Database} {gs : List Trigger} {table name : String} {t : Table}

/-- The second database is the first without some triggers, and the first has no others of their names. The registries of
checks may differ, for no statement reads them. -/
structure Spared (gs : List Trigger) (db db' : Database) : Prop where
  version : db'.version = db.version
  tables : db'.tables = db.tables
  indexes : db'.indexes = db.indexes
  promotions : db'.promotions = db.promotions
  triggers : db'.triggers = db.triggers.filter fun g => !g.namedIn gs
  those : ∀ g ∈ db.triggers, g.namedIn gs = true → g ∈ gs

namespace Spared

variable (spared : Spared gs db db')

include spared

theorem table? (name : String) : db'.table? name = db.table? name := by rw [Database.table?, spared.tables, Database.table?]

theorem tableOf (name : String) : db'.tableOf name = db.tableOf name := by
  rw [Database.tableOf, spared.table?, Database.tableOf]

theorem conflict? (t : Table) (row : Row) : db'.conflict? t row = db.conflict? t row := by
  simp only [Database.conflict?, indexesOn, spared.indexes]

theorem given (name : String) (changes : Table → Except EngineError (List (Row × Row))) :
    db'.given name changes = db.given name changes := by
  rw [Database.given, spared.tableOf, Database.given]

theorem bodiesOf (name : CollectionName) {a : Answer} (s : Statement a) : db'.bodiesOf name s = db.bodiesOf name s := by
  cases s with
  | change | overwrite => exact spared.given _ _
  | insert | find | findRaw | fetch | count | countTargets | guard | delete => rfl

theorem mapTable (name : String) (f : Table → Table) : Spared gs (db.mapTable name f) (db'.mapTable name f) :=
  ⟨spared.version, by simp only [Database.mapTable, spared.tables], spared.indexes, spared.promotions, spared.triggers,
    spared.those⟩

variable (asks : ∀ g ∈ gs, ∃ φ message, g.Asks φ table message)

include asks

/-- The triggers that are ready in the second database are those of the first, without some that ask formulas. -/
theorem ready (t : Table) (change : RowChange) :
    (∃ e, db.ready t change = .error e ∧ db'.ready t change = .error e)
      ∨ ∃ ps, db.ready t change = .ok ps ∧ db'.ready t change = .ok (ps.filter fun p => !p.namedIn gs)
        ∧ ∀ p ∈ ps, p.namedIn gs = true → sameName table t.name = true
          ∧ ∃ g ∈ gs, ∃ φ message, g.Asks φ table message ∧ p.Weighs φ message := by
  have waiting : ((db'.triggersOn t.name).filter fun g => g.event.awaits change)
      = ((db.triggersOn t.name).filter fun g => g.event.awaits change).filter fun g => !g.namedIn gs := by
    simp only [triggersOn, spared.triggers, List.filter_filter]
    refine List.filter_congr fun g _ => ?_
    cases g.namedIn gs <;> simp
  have known : ∀ g ∈ (db.triggersOn t.name).filter fun g => g.event.awaits change, g.namedIn gs = true →
      g ∈ gs ∧ sameName g.table t.name = true := by
    intro g mem named
    obtain ⟨mem, -⟩ := List.mem_filter.1 mem
    obtain ⟨mem, on⟩ := List.mem_filter.1 mem
    exact ⟨spared.those g mem named, on⟩
  have same : ∀ g p : Trigger, g.prepare t = .ok p → g.namedIn gs = p.namedIn gs := fun g p made => by
    rw [Trigger.namedIn, Trigger.namedIn, Trigger.name_of_prepare made]
  have both : db'.ready t change = (db.ready t change).map (List.filter fun p => !p.namedIn gs) := by
    unfold Database.ready
    rw [waiting]
    refine mapM_filter_eq (fun g _ p made => congrArg (!·) (same g p made)) fun g mem named => ?_
    obtain ⟨φ, message, asks⟩ := asks g (known g mem (by simpa using named)).1
    obtain ⟨p, made, -⟩ := asks.prepare t
    exact ⟨p, made⟩
  rw [both]
  cases made : db.ready t change with
  | error e => exact .inl ⟨e, rfl, rfl⟩
  | ok ps =>
    refine .inr ⟨ps, rfl, rfl, fun p mem named => ?_⟩
    obtain ⟨g, mem, prepared⟩ := exists_of_mapM made mem
    obtain ⟨own, on⟩ := known g mem (same g p prepared ▸ named)
    obtain ⟨φ, message, asks⟩ := asks g own
    obtain ⟨q, again, weighs⟩ := asks.prepare t
    cases prepared.symm.trans again
    exact ⟨asks.on ▸ on, g, own, φ, message, asks, weighs⟩

/-- Triggers that ask formulas of new bodies do not wait for a write of a column. -/
theorem ready_columnUpdate (t : Table) : db'.ready t .columnUpdate = db.ready t .columnUpdate := by
  have waiting : ((db'.triggersOn t.name).filter fun g => g.event.awaits .columnUpdate)
      = (db.triggersOn t.name).filter fun g => g.event.awaits .columnUpdate := by
    simp only [triggersOn, spared.triggers, List.filter_filter]
    refine List.filter_congr fun g mem => ?_
    cases named : g.namedIn gs with
    | false => simp
    | true =>
      have silent : g.event.awaits .columnUpdate = false := by
        obtain ⟨_, _, asks⟩ := asks g (spared.those g mem named)
        cases h : g.event
        · rfl
        · rfl
        · exact absurd h asks.event
      simp [silent]
  rw [Database.ready, waiting, Database.ready]

theorem setColumn (name : String) (rowid : Int) (column : String) (v : Value) :
    Agree (Spared gs) (db.setColumn name rowid column v) (db'.setColumn name rowid column v) := by
  unfold Database.setColumn
  rw [spared.tableOf]
  refine (Agree.refl (db.tableOf name)).bind ?_
  rintro t _ rfl
  rw [spared.ready_columnUpdate asks]
  refine (Agree.refl (db.ready t .columnUpdate)).bind ?_
  rintro ps _ rfl
  cases t.rows.find? fun r => r.rowid = rowid with
  | none => exact spared
  | some row =>
    refine (Agree.refl (ps.forM (Trigger.before (placeIn row row)))).bind fun _ _ _ => ?_
    simp only [spared.conflict?]
    cases db.conflict? t (row.setPromoted column v) with
    | some e => exact Agree.error e
    | none => exact spared.mapTable _ _

theorem after (row : Row) (g : Trigger) : Agree (Spared gs) (Database.after row db g) (Database.after row db' g) := by
  unfold Database.after
  cases g.action with
  | copy path column => exact spared.setColumn asks _ _ _ _
  | check | refuse => exact spared

omit spared asks in
/-- What triggers do before a change, without some that ask formulas, and what follows. -/
theorem before {on : Prop} {ps : List Trigger} (weigh : ∀ p ∈ ps, p.namedIn gs = true →
      on ∧ ∃ g ∈ gs, ∃ φ message, g.Asks φ table message ∧ p.Weighs φ message)
    {read : Place → Value} {b : Body} (body : read ⟨.current, .data⟩ = .text b.text) {α β : Type} {ρ : α → β → Prop}
    {k : Except EngineError α} {k' : Except EngineError β} (next : Agree ρ k k') :
    Unless (fun e => on ∧ Trigger.TurnsAway gs table b e) ρ (ps.forM (Trigger.before read) >>= fun _ => k)
      ((ps.filter fun p => !p.namedIn gs).forM (Trigger.before read) >>= fun _ => k') := by
  rcases forM_filter (fun p => !p.namedIn gs) (Trigger.before read) ps with same | ⟨p, mem, named, e, failed, eq⟩
  · rw [same]
    exact .bind_same _ fun _ _ => .inr next
  · obtain ⟨on, g, own, φ, message, asks, weighs⟩ := weigh p mem (by simpa using named)
    have refuses : ¬ φ.Admits b := fun admits => by cases (weighs.before_of_admits body admits).symm.trans failed
    have failed' := weighs.before_of_not_admits body refuses
    exact .inl ⟨e, by rw [eq]; rfl, on, g, own, φ, message, asks, refuses, Except.error.inj (failed.symm.trans failed')⟩

omit spared in
/-- What triggers do after a row has been written, without some that ask formulas. -/
theorem foldlM_after {on : Prop} {ps : List Trigger} (weigh : ∀ p ∈ ps, p.namedIn gs = true →
      on ∧ ∃ g ∈ gs, ∃ φ message, g.Asks φ table message ∧ p.Weighs φ message)
    (row : Row) {mid mid' : Database} (spared : Spared gs mid mid') :
    Agree (Spared gs) (ps.foldlM (Database.after row) mid) ((ps.filter fun p => !p.namedIn gs).foldlM (Database.after row) mid') :=
  Agree.foldlM_filter ps
    (fun p mem named db =>
      have ⟨_, _, _, _, _, _, weighs⟩ := weigh p mem (by simpa using named)
      weighs.after row db)
    (fun p _ _ _ spared => spared.after asks row p) spared

/-- A row is inserted as it is without the triggers, unless one of them turns its body away. -/
theorem insertRow (id body : String) (now : Int) :
    Unless (fun e => ∃ b, Body.ofText? body = some b ∧ sameName table name = true ∧ Trigger.TurnsAway gs table b e) (Spared gs)
      (db.insertRow name id body now) (db'.insertRow name id body now) := by
  unfold Database.insertRow
  rw [spared.tableOf]
  refine .bind_same _ fun t found => ?_
  rcases spared.ready asks t .insert with ⟨e, failed, failed'⟩ | ⟨ps, made, made', weigh⟩
  · rw [failed, failed']
    exact .inr (.error e)
  rw [made, made', ok_bind, ok_bind]
  refine .bind_same _ fun b valid => ?_
  simp only
  refine (before weigh rfl ?_).mono fun e ⟨on, away⟩ =>
    ⟨b, validBody_eq_ok valid, sameName_trans on (mem_of_table? (tableOf_eq_ok.1 found)).2, away⟩
  split
  · exact .error _
  · exact foldlM_after asks weigh _ (spared.mapTable _ _)

/-- So are bodies changed. -/
theorem updateRows (changes : Table → Except EngineError (List (Row × Row))) :
    Unless (fun e => ∃ b ∈ db.given name changes, sameName table name = true ∧ Trigger.TurnsAway gs table b e)
      (fun a a' => a.1 = a'.1 ∧ Spared gs a.2 a'.2) (db.updateRows name changes) (db'.updateRows name changes) := by
  unfold Database.updateRows Database.given
  rw [spared.tableOf]
  cases found : db.tableOf name with
  | error e => exact .inr (.error e)
  | ok t =>
  simp only [ok_bind]
  rcases spared.ready asks t .bodyUpdate with ⟨e, failed, failed'⟩ | ⟨ps, made, made', weigh⟩
  · rw [failed, failed']
    exact .inr (.error e)
  rw [made, made', ok_bind, ok_bind]
  cases listed : changes t with
  | error e => exact .inr (.error e)
  | ok cs =>
  simp only [ok_bind]
  have step : ∀ c ∈ cs, ∀ mid mid', Spared gs mid mid' → Unless (fun e => ∃ b ∈ cs.map fun c => c.2.data,
      sameName table name = true ∧ Trigger.TurnsAway gs table b e) (Spared gs) (updateRow ps name mid c)
      (updateRow (ps.filter fun p => !p.namedIn gs) name mid' c) := by
    rintro ⟨old, new⟩ mem mid mid' spared
    refine (before weigh (b := new.data) rfl (foldlM_after asks weigh new (spared.mapTable _ _))).mono fun e ⟨on, away⟩ => ?_
    exact ⟨new.data, List.mem_map_of_mem mem, sameName_trans on (mem_of_table? (tableOf_eq_ok.1 found)).2, away⟩
  exact (Unless.foldlM cs step spared).bind fun _ _ spared => .inr ⟨rfl, spared⟩

/-- A statement does with the triggers what it does without them, unless it gives a row of the table a body that one of them
turns away. -/
theorem run (name : CollectionName) (r : Resolver) {a : Answer} (s : Statement a) :
    Unless (fun e => ∃ b ∈ db.bodiesOf name s, sameName table name.text = true ∧ Trigger.TurnsAway gs table b e)
      (fun x x' => x.1 = x'.1 ∧ Spared gs x.2 x'.2) (db.run name r s) (db'.run name r s) := by
  have same : db'.faults name s = db.faults name s := by
    unfold faults
    rw [spared.table?]
  rcases run_congr (r := r) same with ⟨e, refused, refused'⟩ | ⟨ran, ran'⟩
  · exact .inr (by rw [refused, refused']; exact .error e)
  rw [ran, ran']
  cases s with
  | change | overwrite => exact spared.updateRows asks _
  | insert id body now =>
    refine ((spared.insertRow asks id body now).mono fun e ⟨b, valid, away⟩ => ?_).bind fun _ _ spared => .inr ⟨rfl, spared⟩
    exact ⟨b, by simp [Database.bodiesOf, valid], away⟩
  | delete =>
    unfold answer
    rw [spared.tableOf]
    exact .bind_same _ fun t _ => .inr ⟨rfl, spared.mapTable _ _⟩
  | find | findRaw =>
    unfold answer
    rw [spared.tableOf]
    exact .bind_same _ fun t _ => .bind_same _ fun rows _ => .inr ⟨rfl, spared⟩
  | fetch | count | countTargets | guard =>
    unfold answer
    rw [spared.tableOf]
    exact .bind_same _ fun t _ => .inr ⟨rfl, spared⟩

end Spared

end Database

end Dossier
