import Dossier.Proofs.Database.Spared
import Dossier.Proofs.Session.Twin

/-!
# What the registration of a check does

`Collection.addCheck_kept`: a registration that succeeds makes the triggers of its check in the place of those of their names
and leaves an entry in the registry; all else stays. The triggers ask the formula that the expression is
(`Check.asks_of_triggers?`).
-/

namespace Dossier

open Text Sql Outcome Workspace

namespace Check

variable {name : CollectionName} {check message condition expression : String} {gs : List Trigger} {φ : Formula}

theorem triggers?_eq_some (made : triggers? name check message condition = some gs) : ∃ e, violation? condition message = some e
    ∧ gs = [⟨check ++ "__insert", name.text, .insert, .check e message⟩,
      ⟨check ++ "__update", name.text, .bodyUpdate, .check e message⟩] := by
  obtain ⟨e, violation, rfl⟩ := Option.map_eq_some_iff.1 made
  exact ⟨e, violation, rfl⟩

/-- The triggers of a check ask the formula that its expression is. -/
theorem asks_of_triggers? (formula : Raw.formula? expression = some φ)
    (apart : Raw.numbersApart (tokens expression.toList) = true)
    (made : triggers? name check message (Raw.resolve newBody expression) = some gs) :
    ∀ g ∈ gs, g.Asks φ name.text message := by
  obtain ⟨e, violation, rfl⟩ := triggers?_eq_some made
  have action : ∀ scope : Scope, (∀ name, scope none name = none) → scope (some "NEW") "data" = some ⟨.current, .data⟩ →
      ∃ resolved, e.resolve scope = some resolved ∧ ∀ (read : Place → Value) (b : Body),
        read ⟨.current, .data⟩ = .text b.text → resolved.holds read [] = (φ.truth? b).map Truth.not :=
    fun scope bare body =>
      ⟨_, Raw.violation?_of_formula? formula apart violation bare body, fun read b here => Raw.holds_not_ofBody formula here⟩
  intro g mem
  rcases List.mem_cons.1 mem with rfl | mem
  · exact ⟨rfl, nofun, e, rfl, action⟩
  · obtain rfl := List.mem_singleton.1 mem
    exact ⟨rfl, nofun, e, rfl, action⟩

/-- The name of a check. -/
def nameOf (name : CollectionName) (path : FieldPath) (expression : String) : String :=
  name.derived [path.column, "check_" ++ digest expression]

end Check

/-- A check is registered in a database: its triggers stand in the place of those of their names, and the registry has an entry
of its name. -/
structure Database.Registers (db : Database) (name : CollectionName) (path : FieldPath) (expression : String)
    (gs : List Trigger) (after : Database) : Prop where
  triggers : Check.triggers? name (Check.nameOf name path expression) (Check.message name path expression)
    (Raw.resolve Check.newBody expression) = some gs
  after : ∃ mid time, db.replaceTriggers gs = .ok mid
    ∧ after = mid.recordCheck ⟨name.text, Check.nameOf name path expression, path, expression, time⟩

namespace Database.Registers

variable {db after : Database} {name : CollectionName} {path : FieldPath} {expression : String} {gs : List Trigger}

theorem eq (h : db.Registers name path expression gs after) : ∃ checks, after =
    { db with triggers := gs.reverse ++ db.triggers.filter fun g => !g.namedIn gs, checks } := by
  obtain ⟨-, mid, time, replaced, rfl⟩ := h
  rw [triggers_of_replaceTriggers replaced]
  unfold recordCheck
  split
  · exact ⟨_, rfl⟩
  · exact ⟨_, rfl⟩

/-- Without the triggers of the check the database is what it was without triggers of their names. -/
theorem spared (h : db.Registers name path expression gs after) :
    Spared gs after { db with triggers := db.triggers.filter fun g => !g.namedIn gs } := by
  obtain ⟨checks, rfl⟩ := h.eq
  have own : ∀ g ∈ gs, g.namedIn gs = true := fun g mem => List.any_eq_true.2 ⟨g, mem, sameName_refl _⟩
  refine ⟨rfl, rfl, rfl, rfl, ?_, fun g mem named => ?_⟩
  · have none_ : gs.reverse.filter (fun g => !g.namedIn gs) = [] := by simpa [List.filter_eq_nil_iff] using own
    simp [List.filter_append, none_]
  · rcases List.mem_append.1 mem with mem | mem
    · exact List.mem_reverse.1 mem
    · simp [named] at mem

end Database.Registers

namespace Action

variable {w v : Workspace} {α : Type}

/-- A level opens only where no other connection holds the lock. -/
theorem unlocked_of_begun (orderly : w.Orderly) (begun : begin.result w = (.ok (), v)) : w.Unlocked := by
  intro idle
  unfold Workspace.Orderly at orderly
  simp only [idle] at orderly
  rw [begin, result_bind, result_depth] at begun
  simp only [orderly, if_true, result_bind, result_connect, Connection.begin, idle] at begun
  cases held : w.connection.file.writer with
  | none => rfl
  | some n => simp [held] at begun

theorem unlocked_before_transaction {a : Action α} {x : α} (orderly : w.Orderly)
    (made : (Action.transaction a).result w = (.ok x, v)) : w.Unlocked := by
  rw [result_transaction] at made
  cases begun : begin.result w with
  | mk r u =>
    cases r with
    | error e => simp [begun] at made
    | ok _ => exact unlocked_of_begun orderly begun

/-- In a level of its own an action keeps what it keeps when it succeeds. -/
theorem Yields.invariant_transaction {α : Type} {a : Action α} {P : Database → Prop} {inside : Prop}
    (h : ∀ db, P db → Yields db a fun _ after => P after) : Invariant inside P (Action.transaction a) := by
  intro w orderly within start
  have level : Spec inside (· = w.current) (Action.transaction a) fun _ after => P after :=
    Spec.transaction (h w.current start) (fun x _ done => done x rfl) fun _ _ => start
  exact level w orderly within rfl

end Action

namespace Collection

open Dossier.Action

variable (c : Collection) {db : Database} {w v : Workspace}

theorem nameless_installCheck (path : FieldPath) (column expression : String) :
    Nameless (c.installCheck path column expression) := by
  unfold installCheck
  simp only
  split
  · exact (Still.throw _).nameless
  · refine (Still.alter _).nameless.bind fun _ => Nameless.now.bind fun time =>
      ((Still.alter _).bind fun _ => (Still.read _).bind fun entry => ?_).nameless
    cases entry with
    | some entry => exact .pure _
    | none => exact .throw _

/-- The steps of a registration. -/
theorem yields_installCheck (path : FieldPath) (expression : String) :
    Yields db (c.installCheck path path.column expression) fun check after => check.name = Check.nameOf c.name path expression
      ∧ ∃ gs, db.Registers c.name path expression gs after := by
  unfold installCheck
  simp only
  split
  · exact Yields.throw _
  · rename_i gs made
    refine (Yields.alter _).bind fun _ mid replaced => Yields.now.bind fun time _ read =>
      (Yields.alter _).bind fun _ after recorded => (Yields.read _).bind fun entry _ ⟨eq, same⟩ => ?_
    subst read same
    cases recorded
    cases eq
    split
    · rename_i entry found
      refine (Yields.pure _).mono fun check _ ⟨shown, same⟩ => ?_
      subst shown same
      have same : entry.name = Check.nameOf c.name path expression := by
        simpa [Check.nameOf] using List.find?_some found
      exact ⟨same, gs, made, _, time, replaced, rfl⟩
    · exact Yields.throw _

theorem checkExpression_eq_ok {expression trimmed : String} (made : checkExpression expression = .ok trimmed) :
    trimmed = trim expression := by
  unfold checkExpression at made
  simp only at made
  split at made
  · cases made
  · split at made <;> cases made
    rfl

/-- A registration that succeeds has made its steps in a level of its own. -/
theorem addCheck_succeeds {path expression : String} {check : CheckConstraint}
    (made : (c.addCheck path expression).result w = (.ok check, v)) : ∃ (q : FieldPath) (u : Workspace) (events : List Event),
      FieldPath.parse path = .ok q
      ∧ (Action.transaction (c.installCheck q q.column (trim expression))).result w = (.ok check, u) ∧ v = { u with events } := by
  obtain ⟨q, _, request, made⟩ := result_bind_eq_ok.1 made
  rw [result_ofRequest] at request
  obtain ⟨parsed, rfl⟩ := Prod.mk.inj request
  obtain ⟨e, _, request, made⟩ := result_bind_eq_ok.1 made
  rw [result_ofStore] at request
  obtain ⟨trimmed, rfl⟩ := Prod.mk.inj request
  obtain ⟨column, _, request, made⟩ := result_bind_eq_ok.1 made
  rw [result_ofRequest] at request
  obtain ⟨target, rfl⟩ := Prod.mk.inj request
  obtain ⟨check', u, level, made⟩ := result_bind_eq_ok.1 made
  obtain ⟨_, _, reported, made⟩ := result_bind_eq_ok.1 made
  cases reported
  cases made
  obtain rfl := FieldPath.targetColumn_eq_ok (eq_ok_of_mapError target)
  obtain rfl := checkExpression_eq_ok trimmed
  exact ⟨q, u, _, eq_ok_of_mapError parsed, level, rfl⟩

/-- A registration that succeeds changes the database as it says, and keeps all else. -/
theorem addCheck_kept {path expression : String} {check : CheckConstraint} (orderly : w.Orderly)
    (made : (c.addCheck path expression).result w = (.ok check, v)) : w.Unlocked ∧ Kept v w ∧ v.ids = w.ids ∧ ∃ q gs,
      check.name = Check.nameOf c.name q (trim expression)
      ∧ w.current.Registers c.name q (trim expression) gs v.current := by
  obtain ⟨q, u, events, -, level, rfl⟩ := c.addCheck_succeeds made
  have yields : Yields w.current (c.installCheck q q.column (trim expression)) _ := c.yields_installCheck q (trim expression)
  have unlocked := unlocked_before_transaction orderly level
  obtain ⟨orderly', base, name, gs, registers⟩ := yields.result_transaction orderly level
  have free : u.Unlocked := yields.unlocked_of_transaction orderly level
  have nameless := (c.nameless_installCheck q q.column (trim expression)).transaction w
  rw [level] at nameless
  exact ⟨unlocked, ⟨orderly', base, fun _ => free⟩, nameless, q, gs, name, registers⟩

/-- A registration keeps what is kept when a check on its expression is registered. -/
theorem invariant_addCheck_of_registers {P : Database → Prop} {inside : Prop} {path expression : String}
    (keeps : ∀ db q gs after, P db → db.Registers c.name q (trim expression) gs after → P after) :
    Invariant inside P (c.addCheck path expression) := by
  refine Invariant.ofRequest_bind fun q _ => ?_
  have installed : ∀ column, q.targetColumn = .ok column → Invariant inside P (do
      let check ← Action.transaction (c.installCheck q column (trim expression))
      report (.checkInstalled c.name.text q.text (trim expression))
      return check) := by
    intro column target
    obtain rfl := FieldPath.targetColumn_eq_ok target
    have steps : Invariant inside P (Action.transaction (c.installCheck q q.column (trim expression))) :=
      Yields.invariant_transaction fun db start => (c.yields_installCheck q (trim expression)).mono fun _ after ⟨_, gs, registers⟩ =>
        keeps db q gs after start registers
    exact steps.bind fun _ => (Invariant.report _).bind fun _ => .pure _
  intro w orderly within start
  rw [result_bind, result_ofStore]
  cases checked : checkExpression expression with
  | error e => exact ⟨orderly, rfl, start⟩
  | ok trimmed =>
    obtain rfl := checkExpression_eq_ok checked
    exact Invariant.ofRequest_bind installed w orderly within start

end Collection

end Dossier
