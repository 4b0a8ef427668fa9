import Dossier.Proofs.Database.Fitting
import Dossier.Proofs.Outcome

/-!
# Databases without unique indexes

`Database.unkeyed` leaves the indexes of a database where they are, but none of them is unique any more. A statement
does to it what it does to the database itself, unless there it stops at a violated constraint (`Follows.run`).
-/

namespace Dossier

open Outcome

namespace Index

/-- The index, not unique any more. -/
def plain (i : Index) : Index := { i with unique := false }

end Index

namespace Database

/-- The database with indexes of which none is unique. -/
def unkeyed (db : Database) : Database := { db with indexes := db.indexes.map Index.plain }

/-- A result follows another one: it is made of it by `f`, unless the other one is a violated constraint. -/
def Follows {α β : Type} (f : α → β) (r : Except EngineError α) (r' : Except EngineError β) : Prop :=
  (∃ message, r = .error (.constraint message)) ∨ r' = r.map f

variable {db : Database} {table : String} {t : Table}

theorem schema_unkeyed (db : Database) : db.unkeyed.schema = db.schema := by
  simp only [schema, unkeyed, List.map_map]
  rfl

/-- No row stands against another one where no index is unique. -/
theorem conflict?_unkeyed (db : Database) (t : Table) (row : Row) : db.unkeyed.conflict? t row = none := by
  refine Option.map_eq_none_iff.2 (List.find?_eq_none.2 fun i mem => ?_)
  obtain ⟨i, -, rfl⟩ := List.mem_map.1 (List.mem_filter.1 mem).1
  simp [Index.plain]

theorem exists_of_conflict? {row : Row} {e : EngineError} (h : db.conflict? t row = some e) :
    ∃ message, e = .constraint message := by
  obtain ⟨i, -, rfl⟩ := Option.map_eq_some_iff.1 h
  exact ⟨_, rfl⟩

namespace Follows

variable {α β γ δ : Type} {f : α → β} {g : γ → δ}

theorem bind {r : Except EngineError α} {r' : Except EngineError β} {k : α → Except EngineError γ}
    {k' : β → Except EngineError δ} (first : Follows f r r') (later : ∀ x, Follows g (k x) (k' (f x))) :
    Follows g (r >>= k) (r' >>= k') := by
  rcases first with ⟨message, rfl⟩ | rfl
  · exact .inl ⟨message, rfl⟩
  · cases r with
    | error e => exact .inr rfl
    | ok x => exact later x

/-- What follows a step that does not look at indexes. -/
theorem bind_same (r : Except EngineError α) {k : α → Except EngineError γ} {k' : α → Except EngineError δ}
    (later : ∀ x, Follows g (k x) (k' x)) : Follows g (r >>= k) (r >>= k') := by
  cases r with
  | error e => exact .inr rfl
  | ok x => exact later x

theorem foldlM {ι : Type} {step : Database → ι → Except EngineError Database}
    (each : ∀ db i, Follows unkeyed (step db i) (step db.unkeyed i)) (l : List ι) (db : Database) :
    Follows unkeyed (l.foldlM step db) (l.foldlM step db.unkeyed) := by
  induction l generalizing db with
  | nil => exact .inr rfl
  | cons i rest ih =>
    rw [List.foldlM_cons, List.foldlM_cons]
    exact (each db i).bind ih

/-! ## Writes -/

theorem setColumn (db : Database) (table : String) (rowid : Int) (column : String) (v : Value) :
    Follows unkeyed (db.setColumn table rowid column v) (db.unkeyed.setColumn table rowid column v) := by
  refine bind_same (db.tableOf table) fun t => bind_same (db.ready t .columnUpdate) fun gs => ?_
  cases t.rows.find? fun r => r.rowid = rowid with
  | none => exact .inr rfl
  | some row =>
    refine bind_same (gs.forM (Trigger.before (placeIn row row))) fun _ => ?_
    simp only [conflict?_unkeyed]
    cases stands : db.conflict? t (row.setPromoted column v) with
    | none => exact .inr rfl
    | some e =>
      obtain ⟨message, rfl⟩ := exists_of_conflict? stands
      exact .inl ⟨message, rfl⟩

theorem after (row : Row) (db : Database) (g : Trigger) :
    Follows unkeyed (Database.after row db g) (Database.after row db.unkeyed g) := by
  unfold Database.after
  cases g.action with
  | copy path column => exact setColumn db _ _ _ _
  | check | refuse => exact .inr rfl

theorem insertRow (db : Database) (table id body : String) (now : Int) :
    Follows unkeyed (db.insertRow table id body now) (db.unkeyed.insertRow table id body now) := by
  refine bind_same (db.tableOf table) fun t => bind_same (db.ready t .insert) fun gs =>
    bind_same (validBody body) fun b => bind_same (gs.forM _) fun _ => ?_
  simp only
  split
  · exact .inr rfl
  · exact foldlM (after _) gs (db.mapTable table fun u => { u with rows := u.rows ++ [⟨t.nextRowid, id, b, now, now, []⟩] })

theorem updateRow (gs : List Trigger) (table : String) (db : Database) (c : Row × Row) :
    Follows unkeyed (updateRow gs table db c) (updateRow gs table db.unkeyed c) :=
  bind_same (gs.forM (Trigger.before (placeIn c.2 c.1))) fun _ => foldlM (after c.2) gs (db.putRow table c.2)

theorem updateRows (db : Database) (table : String) (changes : Table → Except EngineError (List (Row × Row))) :
    Follows (Prod.map id unkeyed) (db.updateRows table changes) (db.unkeyed.updateRows table changes) := by
  refine bind_same (db.tableOf table) fun t => bind_same (db.ready t .bodyUpdate) fun gs =>
    bind_same (changes t) fun cs => ?_
  exact (foldlM (updateRow gs table) cs db).bind fun last => .inr rfl

/-- A statement that writes does the same without unique indexes, unless with them it violates a constraint. -/
theorem run (db : Database) (name : CollectionName) (r : Resolver) (s : Statement .changed) :
    Follows (Prod.map id unkeyed) (db.run name r s) (db.unkeyed.run name r s) := by
  have same : db.unkeyed.faults name s = db.faults name s := rfl
  rcases run_congr (r := r) same with ⟨e, refused, refused'⟩ | ⟨ran, ran'⟩
  · exact .inr (by rw [refused, refused']; rfl)
  rw [ran, ran']
  cases s with
  | change changes p cardinality now => exact updateRows db name.text _
  | overwrite id body now => exact updateRows db name.text _
  | insert id body now => exact (insertRow db name.text id body now).bind fun _ => .inr rfl
  | delete p cardinality => exact bind_same (db.tableOf name.text) fun t => .inr rfl

end Follows

/-- A statement that reads does not look at indexes. -/
theorem run_unkeyed (db : Database) (name : CollectionName) (r : Resolver) {answer : Answer} (s : Statement answer)
    (reads : answer ≠ .changed) : (db.unkeyed.run name r s).map (·.1) = (db.run name r s).map (·.1) := by
  have tables : db.unkeyed.tableOf name.text = db.tableOf name.text := rfl
  have same : db.unkeyed.faults name s = db.faults name s := rfl
  rcases run_congr (r := r) same with ⟨e, refused, refused'⟩ | ⟨ran, ran'⟩
  · rw [refused, refused']
  rw [ran, ran']
  cases s with
  | change | overwrite | insert | delete => exact absurd rfl reads
  | find p l =>
    rw [Database.answer, Database.answer, tables]
    cases db.tableOf name.text with
    | error e => rfl
    | ok t => rw [ok_bind, ok_bind]; cases l.apply r (t.select p) <;> rfl
  | findRaw p l =>
    rw [Database.answer, Database.answer, tables]
    cases db.tableOf name.text with
    | error e => rfl
    | ok t => rw [ok_bind, ok_bind]; cases t.findRaw r p l <;> rfl
  | fetch | count | countTargets | guard =>
    simp only [Database.answer]
    rw [tables]
    cases db.tableOf name.text <;> rfl

end Database

end Dossier
