import Dossier.Proofs.Collection.Opening
import Dossier.Proofs.Collection.Policed
import Dossier.Proofs.Store.Sparing

/-!
# Checks on reachable stores

`Host.polices_of_reached`: in a store that calls of one collection lead to, every row that has been written since a check was
registered has a body that the formula of the check admits, and a call that would give a row another body fails.
`Host.unpoliced` is a check whose triggers ask something else, for its expression has a number right after a word.
-/

namespace Dossier

open Text Sql Dossier.Action Database Workspace Outcome

namespace Database

variable {db after : Database} {name : CollectionName} {expressions : List String} {expression : String} {φ : Formula}
variable {Old : Int → Body → Prop}

/-- If a check on the expression is in the registry, the rows of the collection are as `Old` says in number and body, or have
bodies that the formula admits. -/
def Vetted (name : CollectionName) (Old : Int → Body → Prop) (expression : String) (φ : Formula) (db : Database) : Prop :=
  (∃ e ∈ db.checks, e.expression = expression) → ∀ rowid b, db.HasBody name.text rowid b → Old rowid b ∨ φ.Admits b

/-- A table that is made has no rows. -/
theorem made_of_createTable {other : CollectionName} (made : db.createTable other = .ok after) :
    after.checks = db.checks ∧ ∀ t ∈ after.tables, ∀ r ∈ t.rows, ∃ s ∈ db.tables, s.name = t.name ∧ r ∈ s.rows := by
  unfold Database.createTable at made
  split at made
  · cases made
    exact ⟨rfl, fun t mem r here => ⟨t, mem, rfl, here⟩⟩
  · split at made <;> cases made
    refine ⟨rfl, fun t mem r here => ?_⟩
    rcases List.mem_append.1 mem with old | new
    · exact ⟨t, old, rfl, here⟩
    · rw [List.mem_singleton.1 new] at here
      cases here

namespace Vetted

theorem gave (h : db.Vetted name Old expression φ) {table : String} {B : Body → Prop} (gave : Gave table B db after)
    (admits : (∃ e ∈ db.checks, e.expression = expression) → sameName name.text table = true → ∀ b, B b → φ.Admits b) :
    after.Vetted name Old expression φ := by
  rintro registered _ _ ⟨t, mem, on, r, here, rfl, rfl⟩
  rw [gave.rest] at registered
  rcases gave.rows t mem r here with ⟨same, new⟩ | old
  · exact .inr (admits registered (sameName_trans (sameName_symm on) same) _ new)
  · exact h registered _ _ (old.congr on)

/-- What brings neither checks nor rows. -/
theorem congr (h : db.Vetted name Old expression φ) (checks : after.checks = db.checks)
    (rows : ∀ t ∈ after.tables, ∀ r ∈ t.rows, ∃ s ∈ db.tables, s.name = t.name ∧ r ∈ s.rows) :
    after.Vetted name Old expression φ := by
  rintro registered _ _ ⟨t, mem, on, r, here, rfl, rfl⟩
  obtain ⟨s, hs, eq, old⟩ := rows t mem r here
  exact h (checks ▸ registered) _ _ ⟨s, hs, eq ▸ on, r, old, rfl, rfl⟩

theorem of_tables (h : db.Vetted name Old expression φ) (checks : after.checks = db.checks) (tables : after.tables = db.tables) :
    after.Vetted name Old expression φ :=
  h.congr checks fun t mem _ here => ⟨t, tables ▸ mem, rfl, here⟩

theorem createTable {other : CollectionName} (h : db.Vetted name Old expression φ) (made : db.createTable other = .ok after) :
    after.Vetted name Old expression φ :=
  h.congr (made_of_createTable made).1 (made_of_createTable made).2

theorem createIndex (h : db.Vetted name Old expression φ) {i : Index} (made : db.createIndex i = .ok after) :
    after.Vetted name Old expression φ := by
  rcases createIndex_eq_ok made with ⟨-, rfl⟩ | ⟨_, -, -, rfl⟩
  · exact h
  · exact h.of_tables rfl rfl

theorem createTrigger (h : db.Vetted name Old expression φ) {g : Trigger} (made : db.createTrigger g = .ok after) :
    after.Vetted name Old expression φ := by
  obtain ⟨_, -, made⟩ := bind_eq_ok.1 made
  split at made
  · cases made
  · cases made
    exact h.of_tables rfl rfl

theorem promote {other : CollectionName} {path : FieldPath} {unique : Bool} {time : Int} (h : db.Vetted name Old expression φ)
    (made : db.promote other path unique time = .ok after) : after.Vetted name Old expression φ := by
  obtain ⟨placed, synced, filled, indexed, ensured, replaced, written, created, rfl⟩ := promote_steps made
  obtain ⟨f, names, rows, rfl⟩ := ensureColumn_tables ensured
  obtain ⟨l, rfl, -⟩ := replaceTriggers_eq_ok replaced
  have placed : Vetted name Old expression φ { db.mapTable other.text f with triggers := l } := by
    refine h.congr rfl fun t mem r here => ?_
    obtain ⟨s, hs, rfl⟩ := List.mem_map.1 mem
    refine ⟨s, hs, ?_, ?_⟩
    · split
      · exact (names s).symm
      · rfl
    · split at here
      · exact rows s ▸ here
      · exact here
  exact ((placed.gave written fun _ _ _ => False.elim).createIndex created).of_tables rfl rfl

/-- The registration of another expression. -/
theorem registers (h : db.Vetted name Old expression φ) {other : CollectionName} {path : FieldPath} {new : String}
    {gs : List Trigger} (ne : new ≠ expression) (registers : db.Registers other path new gs after) :
    after.Vetted name Old expression φ := by
  obtain ⟨-, mid, time, replaced, rfl⟩ := registers
  obtain ⟨l, rfl, -⟩ := replaceTriggers_eq_ok replaced
  unfold recordCheck
  split
  · exact h.of_tables rfl rfl
  · rintro ⟨e, mem, eq⟩
    rcases List.mem_append.1 mem with old | own
    · exact h ⟨e, old, eq⟩
    · rw [List.mem_singleton.1 own] at eq
      exact absurd eq ne

end Vetted

end Database

/-! ## Requests -/

section
variable {c : Collection} {expressions : List String} {expression : String} {φ : Formula} {Old : Int → Body → Prop}
variable (distinct : ∀ a ∈ expressions, ∀ b ∈ expressions, Check.digest a = Check.digest b → a = b)

/-- The request registers no expression but some. -/
def CollectionRequest.RegistersIn (expressions : String → Prop) (r : CollectionRequest) : Prop :=
  ∀ path expression, r = .addCheck path expression → expressions (trim expression)

include distinct

/-- Every request to the collection leaves the checks of its registry standing. -/
theorem Database.policed_perform {r : CollectionRequest} (registers : r.RegistersIn (· ∈ expressions)) :
    Invariant False (Policed expressions c.name) (r.perform c) :=
  CollectionRequest.invariant_perform (fun _ _ _ _ _ _ h made => h.gave (.run made)) (fun _ _ _ _ _ h _ made => h.promote made)
    (fun _ _ _ h made => h.createIndex made) (fun _ _ _ _ _ h made => h.gave (.updateRows made)) r
    (fun path e eq => c.invariant_addCheck_of_registers fun _ _ _ _ h made =>
      h.registers (registers path e eq) distinct made)
    fun _ => Invariant.alter fun _ _ h made => h.createTrigger made

/-- Every request that registers another expression gives rows of the collection no bodies but those that the formula admits, if
a check on the expression is registered. -/
theorem Database.vetted_perform (formula : Raw.formula? expression = some φ)
    (apart : Raw.numbersApart (tokens expression.toList) = true) {r : CollectionRequest}
    (registers : r.RegistersIn fun e => e ∈ expressions ∧ e ≠ expression) :
    Invariant False (fun db => db.Policed expressions c.name ∧ db.Vetted c.name Old expression φ) (r.perform c) := by
  have watches : ∀ {db : Database}, db.Policed expressions c.name → (∃ e ∈ db.checks, e.expression = expression) →
      db.Watches c.name.text φ := by
    rintro db policed ⟨e, mem, rfl⟩
    exact (policed.polices e mem).watches formula apart
  refine CollectionRequest.invariant_perform ?_ ?_ ?_ ?_ r ?_ ?_
  · intro db name resolver s n after h made
    exact ⟨h.1.gave (.run made), h.2.gave (.run made) fun registered same => (watches h.1 registered).admits same made⟩
  · exact fun db path unique time after h _ made => ⟨h.1.promote made, h.2.promote made⟩
  · exact fun db columns after h made => ⟨h.1.createIndex made, h.2.createIndex made⟩
  · intro db id data n after h made
    exact ⟨h.1.gave (.updateRows made),
      h.2.gave (.updateRows made) fun registered same => (watches h.1 registered).updateRows same made⟩
  · intro path e eq
    obtain ⟨known, other⟩ := registers path e eq
    exact c.invariant_addCheck_of_registers fun db q gs after h made =>
      ⟨h.1.registers known distinct made, h.2.registers other made⟩
  · exact fun _ => Invariant.alter fun db after h made => ⟨h.1.createTrigger made, h.2.createTrigger made⟩

end

/-- What the requests to one collection keep, and the making of its table, is kept by calls of a store that are all of it. -/
theorem Collection.keptIn {P : Database → Prop} {c : Collection} {ok : CollectionRequest → Prop} (empty : P .empty)
    (version : ∀ db version, P db → P { db with version })
    (tables : ∀ db after, P db → db.createTable c.name = .ok after → P after)
    (perform : ∀ (resolver : Resolver) (r : CollectionRequest), ok r → Action.Invariant False P (r.perform ⟨c.name, resolver⟩)) :
    KeptIn P fun name r => name = c.name.text ∧ ok r where
  empty := empty
  version := version
  run name request own := by
    obtain ⟨rfl, within⟩ := own
    unfold CollectionRequest.run Collection.openNamed
    simp only [bind_assoc, pure_bind]
    refine Invariant.ofRequest_bind fun parsed read => ?_
    obtain ⟨text, plain⟩ := parsed
    cases CollectionName.text_of_parse read
    exact (Invariant.ensureTable _ tables).bind fun _ => (Invariant.read _).bind fun resolver => perform resolver request within
  perform held request own := by
    obtain ⟨⟨text, plain⟩, resolver⟩ := held
    obtain ⟨same, within⟩ := own
    cases same
    exact perform resolver request within

/-! ## Workspaces -/

namespace Database

variable {db : Database} {name : CollectionName} {g : Trigger}

/-- The trigger is of a check in the registry whose expression is a formula. -/
def Enforces (db : Database) (name : CollectionName) (g : Trigger) : Prop :=
  ∃ e ∈ db.checks, (Raw.formula? e.expression).isSome ∧ Raw.numbersApart (tokens e.expression.toList) = true
    ∧ ∃ path gs, Check.standing? name path e.expression = some gs ∧ g ∈ gs

/-- The failure is for a body for which the formula of a check in the registry is false, with the message of the check, or has no
truth. -/
def Refuses (db : Database) (name : CollectionName) (written : List (CollectionName × Body)) (e : StoreError) : Prop :=
  ∃ p ∈ written, sameName name.text p.1.text = true ∧ ∃ entry ∈ db.checks, ∃ path ψ, Raw.formula? entry.expression = some ψ
    ∧ (ψ.truth? p.2 = some (some false) ∧ e = .constraint (Check.message name path entry.expression)
      ∨ ψ.truth? p.2 = none ∧ e = .engine "malformed operand")

theorem Enforces.asks (h : db.Enforces name g) : ∃ e ∈ db.checks, ∃ path ψ, Raw.formula? e.expression = some ψ
    ∧ g.Asks ψ name.text (Check.message name path e.expression) := by
  obtain ⟨e, mem, formula, apart, path, gs, made, own⟩ := h
  obtain ⟨ψ, formula⟩ := Option.isSome_iff_exists.1 formula
  exact ⟨e, mem, path, ψ, formula, Check.asks_of_triggers? formula apart made g own⟩

/-- The refusal of one of the bodies by the trigger of a check on a formula. -/
theorem Enforces.refuses {ψ : Formula} {message : String} {written : List (CollectionName × Body)} {p : CollectionName × Body}
    (h : db.Enforces name g) (asks : g.Asks ψ name.text message) (mem : p ∈ written)
    (on : sameName name.text p.1.text = true) (turned : ¬ ψ.Admits p.2) :
    db.Refuses name written (.ofEngine (ψ.refusal message p.2)) := by
  obtain ⟨entry, known, path, ψ', formula, own⟩ := h.asks
  refine ⟨p, mem, on, entry, known, path, ψ', formula, ?_⟩
  have refused : ¬ ψ'.Admits p.2 := fun admits => turned (own.admits asks admits)
  rw [asks.refusal_eq own p.2, Formula.refusal]
  cases truth : ψ'.truth? p.2 with
  | none => exact .inr ⟨rfl, rfl⟩
  | some t =>
    obtain rfl : t = some false := Decidable.byContradiction fun other => refused ⟨t, truth, other⟩
    exact .inl ⟨rfl, rfl⟩

/-- Where no two triggers go by one name, some of them can be left out. -/
theorem TriggersApart.spared (apart : db.TriggersApart) {gs : List Trigger} (sub : ∀ g ∈ gs, g ∈ db.triggers) :
    Spared gs db { db with triggers := db.triggers.filter fun g => !g.namedIn gs } := by
  refine ⟨rfl, rfl, rfl, rfl, rfl, fun g mem named => ?_⟩
  obtain ⟨g', own, same⟩ := List.any_eq_true.1 named
  exact apart.eq mem (sub g' own) same ▸ own

end Database

namespace Workspace

/-- The workspace with another current database. -/
def seeing (w : Workspace) (db : Database) : Workspace :=
  match w.connection.transaction with
  | none => { w with connection := { w.connection with file := { w.connection.file with contents := db } } }
  | some t => { w with connection := { w.connection with transaction := some { t with view := db } } }

theorem pair_seeing {timed : Prop} {R : Database → Database → Prop} {w : Workspace} {db : Database} (orderly : w.Orderly)
    (unlocked : w.Unlocked) (related : R w.current db) : Pair timed R w (w.seeing db) := by
  have seen : (w.seeing db).Orderly ∧ (w.seeing db).Unlocked ∧ w.base.isSome = (w.seeing db).base.isSome
      ∧ w.ids = (w.seeing db).ids ∧ w.clock = (w.seeing db).clock ∧ (w.seeing db).current = db := by
    unfold Workspace.Orderly at orderly ⊢
    unfold Unlocked at unlocked ⊢
    unfold base Workspace.current seeing
    cases open_ : w.connection.transaction with
    | none =>
      simp only [open_] at orderly unlocked ⊢
      exact ⟨orderly, unlocked, by simp⟩
    | some t =>
      simp only [open_] at orderly ⊢
      exact ⟨⟨orderly.depth_eq, orderly.levels_eq, orderly.writes, orderly.opened, orderly.pinned⟩, by simp⟩
  obtain ⟨orderly', unlocked', level, ids, clock, current⟩ := seen
  exact ⟨orderly, orderly', unlocked, unlocked', level, ids, fun _ => clock, by rwa [current]⟩

end Workspace

/-- An action heeds a formula for the bodies of a collection. If it does not fail, it gives rows only bodies that the formula
admits. Where no other connection holds the lock, it is compared with its run without the triggers of checks on formulas: if that
gives a row a body that the formula does not admit, the action fails, as that run does or for a check in the registry. -/
structure Workspace.Heeds (w : Workspace) (name : CollectionName) (φ : Formula) {α : Type} (a : Action α) : Prop where
  writes : ∃ written, Writes a w written
  admits : ∀ written x v, Writes a w written → a.result w = (.ok x, v) →
    ∀ p ∈ written, sameName name.text p.1.text = true → φ.Admits p.2
  refuses : w.Unlocked → ∃ gs bare, (∀ g, g ∈ gs ↔ g ∈ w.current.triggers ∧ w.current.Enforces name g)
    ∧ Pair True (Spared gs) w bare ∧ (∃ written, Writes a bare written)
    ∧ ∀ written, Writes a bare written → (∃ p ∈ written, sameName name.text p.1.text = true ∧ ¬ φ.Admits p.2) →
      ∃ e, (a.result w).1 = .error e ∧ ((a.result bare).1 = .error e ∨ w.current.Refuses name written e)

namespace Database.Policed

variable {expressions : List String} {expression : String} {name : CollectionName} {φ : Formula} {w : Workspace} {α : Type}
variable {a : Action α}

/-- Calls on documents heed the formula of a check in the registry. -/
theorem heeds (policed : w.current.Policed expressions name) (orderly : w.Orderly)
    (registered : ∃ e ∈ w.current.checks, e.expression = expression) (formula : Raw.formula? expression = some φ)
    (apart : Raw.numbersApart (tokens expression.toList) = true) (plain : Plain a) : w.Heeds name φ a := by
  have admits : ∀ written x v, Writes a w written → a.result w = (.ok x, v) →
      ∀ p ∈ written, sameName name.text p.1.text = true → φ.Admits p.2 := by
    intro written x v writes made
    obtain ⟨e, mem, rfl⟩ := registered
    exact (writes.admits orderly ((policed.polices e mem).watches formula apart) made).2
  refine ⟨plain.exists_writes w, admits, fun unlocked => ?_⟩
  classical
  obtain ⟨gs, own⟩ : ∃ gs, ∀ g, g ∈ gs ↔ g ∈ w.current.triggers ∧ w.current.Enforces name g :=
    ⟨w.current.triggers.filter fun g => w.current.Enforces name g, fun g => by simp⟩
  have asks : ∀ g ∈ gs, ∃ ψ message, g.Asks ψ name.text message := fun g mem =>
    have ⟨_, _, _, ψ, _, asks⟩ := ((own g).1 mem).2.asks
    ⟨ψ, _, asks⟩
  have pair : Pair True (Spared gs) w _ := pair_seeing orderly unlocked (policed.apart.spared fun g mem => ((own g).1 mem).1)
  refine ⟨gs, _, own, pair, plain.exists_writes _, ?_⟩
  rintro written writes ⟨p, mem, on, refused⟩
  cases ran : a.result w with
  | mk answer v =>
    cases answer with
    | ok x => exact absurd (admits written x v (writes.of_ok asks pair ran) ran p mem on) refused
    | error e =>
      refine ⟨e, rfl, ?_⟩
      rcases writes.matches_or_refused asks pair with
        same | ⟨q, given, there, _, ⟨g, mem, ψ, message, asked, turned, rfl⟩, failed⟩
      · have ends := same.ends
        rw [ran] at ends
        cases other : a.result (w.seeing _) with
        | mk answer' v' =>
          rw [other] at ends
          cases answer' with
          | ok y => exact ends.elim
          | error e' => exact .inl (congrArg Except.error ends.1.symm)
      · rw [ran] at failed
        cases failed
        exact .inr (((own g).1 mem).2.refuses asked given there turned)

end Database.Policed

/-! ## Reachable stores -/

/-- In a store that starts without a database, after any calls of one collection, where different expressions of its checks
have different digests: rows that were not there, with their bodies, before calls that leave an expression unregistered have
bodies that its formula admits wherever a check on it is in the registry; and at any moment of any session, while such a check is
in the registry, calls on documents heed the formula. -/
theorem Host.polices_of_reached {c : CollectionName} {expressions : List String}
    (distinct : ∀ a ∈ expressions, ∀ b ∈ expressions, Check.digest a = Check.digest b → a = b) {expression : String} {φ : Formula}
    (formula : Raw.formula? expression = some φ) (apart : Raw.numbersApart (tokens expression.toList) = true)
    {disk : Disk} {settings : Settings} {ids : IdSource} {clock : Clock} {earlier later : List StoreRequest}
    (fresh : ∀ e ∈ disk.entries, ∀ f, e.2 ≠ .database f)
    (calls : ∀ r ∈ earlier, r.Confined fun name r => name = c.text ∧ r.RegistersIn (· ∈ expressions))
    (others : ∀ r ∈ later, r.Confined fun name r => name = c.text ∧ r.RegistersIn fun e => e ∈ expressions ∧ e ≠ expression)
    {h h' : Host} (reached : ((start disk settings ids clock).callAll earlier).2 = h) (reached' : (h.callAll later).2 = h')
    {s : Store} (opened : h'.store = some s) :
    (∀ Old : Int → Body → Prop, (h.Good fun db => ∀ rowid b, db.HasBody c.text rowid b → Old rowid b) →
      ∀ db, s.Holds db → db.Vetted c Old expression φ)
    ∧ ∀ w, s.Moment (fun name r => name = c.text ∧ r.RegistersIn (· ∈ expressions)) w →
      (∃ e ∈ w.current.checks, e.expression = expression) →
      ∀ (resolver : Resolver) (r : CollectionRequest), r.onDocuments = true → w.Heeds c φ (r.perform ⟨c, resolver⟩) := by
  have policed : ∀ known : String → Prop, (∀ e, known e → e ∈ expressions) →
      KeptIn (Policed expressions c) fun name r => name = c.text ∧ r.RegistersIn known := fun known sub =>
    Collection.keptIn (c := ⟨c, ⟨[]⟩⟩) policed_empty (fun _ _ h => h.congr rfl rfl) (fun _ _ h made => h.createTable made)
      fun resolver _ registers => policed_perform (c := ⟨c, resolver⟩) distinct fun path e eq => sub _ (registers path e eq)
  have before : h.Good (Policed expressions c) := good_of_reached_of_confined (policed _ fun _ => id) fresh calls reached
  have after : h'.Good (Policed expressions c) := reached' ▸ good_callAll_of_confined (policed _ fun _ => And.left) others before
  refine ⟨fun Old old db holds => ?_, fun w moment registered resolver r onDocuments => ?_⟩
  · have vetted : KeptIn (fun db => db.Policed expressions c ∧ db.Vetted c Old expression φ)
        fun name r => name = c.text ∧ r.RegistersIn fun e => e ∈ expressions ∧ e ≠ expression :=
      Collection.keptIn (c := ⟨c, ⟨[]⟩⟩) ⟨policed_empty, fun _ _ _ ⟨_, mem, _⟩ => absurd mem List.not_mem_nil⟩
        (fun _ _ h => ⟨h.1.congr rfl rfl, h.2.of_tables rfl rfl⟩) (fun _ _ h made => ⟨h.1.createTable made, h.2.createTable made⟩)
        fun resolver _ registers => vetted_perform (c := ⟨c, resolver⟩) distinct formula apart registers
    have both : h.Good fun db => db.Policed expressions c ∧ db.Vetted c Old expression φ :=
      before.map₂ (fun _ policed rows => ⟨policed, fun _ rowid b here => .inl (rows rowid b here)⟩) old
    have good : h'.Good _ := reached' ▸ good_callAll_of_confined vetted others both
    exact ((good.store s opened).holds holds).2
  · have here : w.Good (Policed expressions c) := (after.store s opened).moment (policed _ fun _ => id) moment
    exact here.current.heeds here.orderly registered formula apart (r.plain_perform ⟨c, resolver⟩ onDocuments)

/-- Calls that register a check, and one that inserts a document with a number that is greater than zero. -/
def StoreRequest.policing : List StoreRequest := [.reopen none, .session "main" (.within "entries" (.addCheck "a" "a > 0"))]
def StoreRequest.insertPositive : StoreRequest := .session "main" (.within "entries" (.insertOne .positive))

/-- The host after the check. -/
def Host.policed : Host := (blank.callAll StoreRequest.policing).2

/-- A document with a number that is less than zero. -/
def Json.negative : Json := .object [("_id", .string "y"), ("a", .number (.whole ⟨-1, by decide⟩))]

/-- Calls that only register checks make no rows. -/
theorem Database.keptIn_rowless (c : Collection) : KeptIn (fun db => ∀ rowid b, db.HasBody c.name.text rowid b → False)
    fun name r => name = c.name.text ∧ ∃ path expression, r = .addCheck path expression := by
  refine Collection.keptIn (fun _ _ ⟨_, mem, _⟩ => absurd mem List.not_mem_nil) (fun _ _ h => h) ?_ ?_
  · rintro db after h made rowid b ⟨t, mem, on, r, here, row⟩
    obtain ⟨s, old, eq, there⟩ := (made_of_createTable made).2 t mem r here
    exact h rowid b ⟨s, old, eq ▸ on, r, there, row⟩
  · rintro resolver _ ⟨path, expression, rfl⟩
    refine (Collection.invariant_addCheck_of_registers _ fun db q gs after h registers => ?_).map _
    obtain ⟨_, rfl⟩ := registers.eq
    exact h

theorem Host.polices_of_reached_positive : ∃ s x b φ e, (policed.callAll [.insertPositive]).2.store = some s
    ∧ s.session? "main" = some x ∧ Raw.formula? "a > 0" = some φ ∧ s.file.contents.HasBody "entries" 1 b ∧ φ.Admits b
    ∧ ((Collection.entries.insertOne .negative).result (s.workspace x)).1 = .error e := by
  have evaluated : ((policed.callAll [.insertPositive]).2.store.bind fun s => (s.session? "main").bind fun x =>
      (s.file.contents.table? "entries").bind fun t => (Raw.formula? "a > 0").bind fun φ =>
      ((Collection.prepare .negative).result (s.workspace x)).1.toOption.bind fun d =>
      (Body.ofText? (Json.object d.body).text).map fun b =>
      (t.rows.map Row.rowid, s.file.contents.checks.map CheckEntry.expression,
        (s.workspace x).current.checks.map CheckEntry.expression, φ.truth? b))
      = some ([1], ["a > 0"], ["a > 0"], some (some false)) := by decide +kernel
  obtain ⟨s, x, opened, session, found⟩ := Host.exists_session_of_bind evaluated
  obtain ⟨t, table, found⟩ := Option.bind_eq_some_iff.1 found
  obtain ⟨φ, formula, found⟩ := Option.bind_eq_some_iff.1 found
  obtain ⟨d, prepared, found⟩ := Option.bind_eq_some_iff.1 found
  obtain ⟨b, body, eq⟩ := Option.map_eq_some_iff.1 found
  obtain ⟨rows, eq⟩ := Prod.mk.inj eq
  obtain ⟨checks, eq⟩ := Prod.mk.inj eq
  obtain ⟨seen, truth⟩ := Prod.mk.inj eq
  have trimmed : trim "a > 0" = "a > 0" := by decide +kernel
  have registering : ∀ r ∈ StoreRequest.policing, r.Confined fun name r => name = "entries" ∧ r.RegistersIn (· ∈ ["a > 0"]) := by
    simp [StoreRequest.policing, StoreRequest.Confined, Request.Confined, CollectionRequest.RegistersIn, trimmed]
  have inserting : ∀ r ∈ [StoreRequest.insertPositive], r.Confined fun name r =>
      name = "entries" ∧ r.RegistersIn fun e => e ∈ ["a > 0"] ∧ e ≠ "a > 0" := by
    simp [StoreRequest.insertPositive, StoreRequest.Confined, Request.Confined, CollectionRequest.RegistersIn]
  have distinct : ∀ a ∈ ["a > 0"], ∀ b ∈ ["a > 0"], Check.digest a = Check.digest b → a = b := by simp
  obtain ⟨held, heeded⟩ := polices_of_reached (c := Collection.entries.name) distinct formula (by decide +kernel)
    (Disk.start_fresh []) registering inserting (h := policed) (by rw [policed, blank]) rfl opened
  have checking : ∀ r ∈ StoreRequest.policing, r.Confined fun name r =>
      name = "entries" ∧ ∃ path expression, r = .addCheck path expression := by
    simp [StoreRequest.policing, StoreRequest.Confined, Request.Confined]
  have rowless : policed.Good fun db => ∀ rowid b, db.HasBody "entries" rowid b → False :=
    good_of_reached_of_confined (Database.keptIn_rowless .entries) (Disk.start_fresh []) checking (by rw [policed, blank])
  obtain ⟨r, single, rowid⟩ := List.map_eq_singleton_iff.1 rows
  obtain ⟨mem, same⟩ := mem_of_table? table
  have row : s.file.contents.HasBody "entries" 1 r.data :=
    ⟨t, mem, same, r, single ▸ List.mem_singleton_self r, rowid, rfl⟩
  have known : ∀ {db : Database}, db.checks.map CheckEntry.expression = ["a > 0"] → ∃ e ∈ db.checks, e.expression = "a > 0" :=
    fun eq => List.mem_map.1 (eq ▸ List.mem_singleton_self "a > 0")
  have heeds := heeded (s.workspace x) ⟨x, [], .inl ⟨_, session⟩, trivial, rfl⟩ (known seen) ⟨[]⟩ (.insertOne .negative) rfl
  have writes : Writes ((CollectionRequest.insertOne .negative).perform .entries) (s.workspace x)
      [(Collection.entries.name, b)] := by
    have once := Collection.writes_insertOne (c := .entries) (Prod.ext (eq_ok_of_toOption prepared) rfl)
    rw [body] at once
    exact once.bind_silent fun _ u => .pure _ u
  refine ⟨s, x, r.data, φ, ?_⟩
  cases made : (Collection.entries.insertOne .negative).result (s.workspace x) with
  | mk answer v =>
    cases answer with
    | error e =>
      have admits := (held (fun _ _ => False) rowless _ (.inl rfl) (known checks) 1 _ row).resolve_left id
      exact ⟨e, opened, session, formula, row, admits, rfl⟩
    | ok id =>
      have ran : ((CollectionRequest.insertOne .negative).perform .entries).result (s.workspace x) = (.ok (.inserted id), v) := by
        rw [CollectionRequest.perform, result_map, made]
        rfl
      obtain ⟨truth', known', notFalse⟩ := heeds.admits _ _ _ writes ran _ (List.mem_singleton_self _) (sameName_refl _)
      exact absurd (Option.some.inj (known'.symm.trans truth)) notFalse

/-- A check on an expression that begins with a number right after `not`, and a document of which the expression is false. -/
def StoreRequest.misreading : List StoreRequest :=
  [.reopen none, .session "main" (.within "entries" (.addCheck "name" "not.5 < name"))]
def Json.named : Json := .object [("_id", .string "x"), ("name", .string "x")]

/-- The document is inserted although the check is registered: the scanner of fields takes `not.5` for one. -/
theorem Host.unpoliced : ∃ s x φ v b, (blank.callAll StoreRequest.misreading).2.store = some s ∧ s.session? "main" = some x
    ∧ (∃ e ∈ (s.workspace x).current.checks, e.expression = "not.5 < name") ∧ Raw.formula? "not.5 < name" = some φ
    ∧ (Collection.entries.insertOne .named).result (s.workspace x) = (.ok "x", v) ∧ v.current.HasBody "entries" 1 b
    ∧ φ.truth? b = some (some false) := by
  have evaluated : ((blank.callAll StoreRequest.misreading).2.store.bind fun s => (s.session? "main").bind fun x =>
      (Raw.formula? "not.5 < name").bind fun φ =>
      let inserted := (Collection.entries.insertOne .named).result (s.workspace x)
      (inserted.2.current.table? "entries").bind fun t => t.rows.head?.map fun r =>
      (r.rowid, φ.truth? r.data, inserted.1.toOption, (s.workspace x).current.checks.map CheckEntry.expression))
      = some (1, some (some false), some "x", ["not.5 < name"]) := by decide +kernel
  obtain ⟨s, x, opened, session, found⟩ := Host.exists_session_of_bind evaluated
  obtain ⟨φ, formula, found⟩ := Option.bind_eq_some_iff.1 found
  cases made : (Collection.entries.insertOne .named).result (s.workspace x) with
  | mk answer v =>
    rw [made] at found
    obtain ⟨t, table, found⟩ := Option.bind_eq_some_iff.1 found
    obtain ⟨r, first, eq⟩ := Option.map_eq_some_iff.1 found
    obtain ⟨rowid, eq⟩ := Prod.mk.inj eq
    obtain ⟨truth, eq⟩ := Prod.mk.inj eq
    obtain ⟨accepted, checks⟩ := Prod.mk.inj eq
    cases eq_ok_of_toOption accepted
    obtain ⟨mem, same⟩ := mem_of_table? table
    exact ⟨s, x, φ, v, r.data, opened, session, List.mem_map.1 (checks ▸ List.mem_singleton_self _), formula, made,
      ⟨t, mem, same, r, List.mem_of_mem_head? first, rowid, rfl⟩, truth⟩

end Dossier
