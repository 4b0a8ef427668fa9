import Dossier.Proofs.Collection.Checking
import Dossier.Proofs.Database.Unique
import Dossier.Proofs.Database.Watched
import Dossier.Proofs.Text.Hexadecimal
import Mathlib.Data.List.Pairwise

/-!
# The triggers of registered checks

A check is known by the digest of its expression: registrations replace triggers only where the digests agree
(`Check.digest_eq_of_standing`). Where different expressions have different digests every expression of the registry keeps
triggers that ask it, under some path (`Database.Policed`), whatever is registered or promoted after it.
-/

namespace Dossier

open Text Sql Outcome

/-! ## Digests -/

namespace Sha256

theorem length_round (state : List UInt32) (input : UInt32 × UInt32) (h : state.length = 8) : (round state input).length = 8 := by
  unfold round
  split
  · rfl
  · exact h

theorem length_mixBlock (state block : List UInt32) (h : state.length = 8) : (mixBlock state block).length = 8 := by
  have rounds : ∀ (inputs : List (UInt32 × UInt32)) (state : List UInt32), state.length = 8 →
      (inputs.foldl round state).length = 8 := by
    intro inputs
    induction inputs with
    | nil => exact fun _ h => h
    | cons i rest ih => exact fun state h => ih _ (length_round state i h)
  simp [mixBlock, rounds _ _ h, h]

theorem length_mixBlocks (count : Nat) (state ws : List UInt32) (h : state.length = 8) :
    (mixBlocks count state ws).length = 8 := by
  induction count generalizing state ws with
  | zero => exact h
  | succ count ih => exact ih _ _ (length_mixBlock _ _ h)

theorem length_bigEndian (count n : Nat) : (bigEndian count n).length = count := by
  induction count generalizing n with
  | zero => rfl
  | succ count ih => simp [bigEndian, ih]

/-- A digest has 32 bytes. -/
theorem length_digest (message : List UInt8) : (digest message).length = 32 := by
  have words : ((mixBlocks ((words (padded message)).length / 16) initialState (words (padded message)))).length = 8 :=
    length_mixBlocks _ _ _ rfl
  simp [digest, List.length_flatMap, length_bigEndian, words]

end Sha256

/-- Hexadecimal digits are written in lower case. -/
theorem Text.toLower_of_mem_hexDigits {width n : Nat} {c : Char} (mem : c ∈ hexDigits width n) : c.toLower = c :=
  beq_iff_eq.1 (of_mem_hexDigits (p := fun c => c.toLower == c) (by decide) mem)

namespace Check

theorem length_digest (expression : String) : (digest expression).length = digestDigits := by
  rw [digest, String.length_ofList, List.length_take, List.length_flatMap]
  simp [Text.length_hexDigits, Sha256.length_digest, digestDigits]

theorem foldCase_digest (expression : String) : foldCase (digest expression) = digest expression := by
  have lower : ∀ c ∈ (digest expression).toList, c.toLower = c := by
    intro c mem
    rw [digest, String.toList_ofList] at mem
    obtain ⟨b, -, mem⟩ := List.mem_flatMap.1 (List.mem_of_mem_take mem)
    exact toLower_of_mem_hexDigits mem
  rw [foldCase, List.map_congr_left lower, List.map_id']
  exact String.ofList_toList

theorem digest_eq_of_sameName {a b : String} (same : sameName (digest a) (digest b) = true) : digest a = digest b := by
  rw [sameName_iff, foldCase_digest, foldCase_digest] at same
  exact same

/-! ## Triggers of checks -/

variable {name : CollectionName} {p q : FieldPath} {a b : String} {gs hs : List Trigger}

/-- The triggers of a check on an expression that is registered under a path. -/
def standing? (name : CollectionName) (path : FieldPath) (expression : String) : Option (List Trigger) :=
  triggers? name (nameOf name path expression) (message name path expression) (Raw.resolve newBody expression)

theorem digest_eq_of_nameOf {ending : String}
    (same : sameName (nameOf name p a ++ ending) (nameOf name q b ++ ending) = true) : digest a = digest b := by
  have start : ∀ (path : FieldPath) (expression : String),
      nameOf name path expression = name.derived [path.column] ++ "__" ++ "check_" ++ digest expression := fun path expression =>
    (name.derived_append [path.column] _).trans (String.append_assoc ..).symm
  rw [sameName_append_right, start, start] at same
  refine digest_eq_of_sameName (Decidable.of_not_not fun ne => ?_)
  rw [sameName_append_of_ne ((length_digest a).trans (length_digest b).symm) (by simpa using ne)] at same
  cases same

/-- Triggers of two checks go by one name only if their digests agree. -/
theorem digest_eq_of_standing (one : standing? name p a = some gs) (other : standing? name q b = some hs) {g h : Trigger}
    (hg : g ∈ gs) (hh : h ∈ hs) (same : sameName g.name h.name = true) : digest a = digest b := by
  obtain ⟨_, -, rfl⟩ := triggers?_eq_some one
  obtain ⟨_, -, rfl⟩ := triggers?_eq_some other
  have apart : ∀ x y : String, sameName (x ++ "__insert") (y ++ "__update") = false :=
    sameName_append_of_ne (by decide) (by decide)
  simp only [List.mem_cons, List.not_mem_nil, or_false] at hg hh
  rcases hg with rfl | rfl <;> rcases hh with rfl | rfl
  · exact digest_eq_of_nameOf same
  · exact absurd same (by simp [apart])
  · exact absurd same (by rw [sameName_comm]; simp [apart])
  · exact digest_eq_of_nameOf same

/-- No trigger of a check goes by the name of one that copies a value into a column. -/
theorem apart_of_standing (made : standing? name p a = some gs) {g : Trigger} (mem : g ∈ gs) {path : FieldPath} {h : Trigger}
    (copy : h ∈ name.copyTriggers path path.column) : sameName g.name h.name = false := by
  have guards := Database.guards_of_triggers? made g mem
  rw [CollectionName.copyTriggers_eq] at copy
  simp only [List.mem_cons, List.not_mem_nil, or_false] at copy
  rcases copy with rfl | rfl
  · exact guards.apart _ _
  · exact guards.apart _ _

end Check

namespace Database

variable {db after : Database} {name : CollectionName} {expressions : List String} {expression : String} {gs : List Trigger}

/-- No two triggers go by one name. -/
def TriggersApart (db : Database) : Prop := db.triggers.Pairwise fun g h => sameName g.name h.name = false

theorem TriggersApart.createTrigger (h : db.TriggersApart) {g : Trigger} (made : db.createTrigger g = .ok after) :
    after.TriggersApart := by
  obtain ⟨_, -, made⟩ := bind_eq_ok.1 made
  split at made
  · cases made
  · rename_i new
    cases made
    refine List.pairwise_cons.2 ⟨fun t mem => ?_, h⟩
    rw [sameName_comm, Bool.eq_false_iff]
    exact fun same => new (List.any_eq_true.2 ⟨t, mem, same⟩)

theorem TriggersApart.replaceTriggers (h : db.TriggersApart) (made : db.replaceTriggers gs = .ok after) :
    after.TriggersApart := by
  have dropped : ∀ (gs : List Trigger) (db : Database), db.TriggersApart →
      (gs.foldl (fun db g => db.dropTrigger g.name) db).TriggersApart := by
    intro gs
    induction gs with
    | nil => exact fun _ h => h
    | cons g rest ih => exact fun db h => ih _ (List.Pairwise.filter _ h)
  exact foldlM_keeps (fun g _ mid next h made => h.createTrigger made) (dropped gs db h) made

/-- Of triggers apart those of one name are one. -/
theorem TriggersApart.eq (h : db.TriggersApart) {g g' : Trigger} (mem : g ∈ db.triggers) (mem' : g' ∈ db.triggers)
    (same : sameName g.name g'.name = true) : g = g' := by
  by_contra ne
  have symm : Std.Symm fun g h : Trigger => sameName g.name h.name = false := ⟨fun g h apart => by rwa [sameName_comm]⟩
  exact Bool.false_ne_true ((h.forall mem mem' ne).symm.trans same)

/-- A check on the expression stands: its triggers, under some path, are there. -/
def Polices (db : Database) (name : CollectionName) (expression : String) : Prop :=
  ∃ path gs, Check.standing? name path expression = some gs ∧ ∀ g ∈ gs, g ∈ db.triggers

/-- The registry knows some expressions only, a check on each stands, and no two triggers go by one name. -/
structure Policed (expressions : List String) (name : CollectionName) (db : Database) : Prop where
  known : ∀ e ∈ db.checks, e.expression ∈ expressions
  polices : ∀ e ∈ db.checks, db.Polices name e.expression
  apart : db.TriggersApart

/-- A check whose expression is a formula watches the table. -/
theorem Polices.watches {φ : Formula} (h : db.Polices name expression) (formula : Raw.formula? expression = some φ)
    (apart : Raw.numbersApart (tokens expression.toList) = true) : db.Watches name.text φ := by
  obtain ⟨path, gs, made, there⟩ := h
  have asks := Check.asks_of_triggers? formula apart made
  obtain ⟨_, -, rfl⟩ := Check.triggers?_eq_some made
  simp only [List.forall_mem_cons, List.not_mem_nil, false_imp_iff, implies_true, and_true] at there asks
  intro change mem
  simp only [List.mem_cons, List.not_mem_nil, or_false] at mem
  rcases mem with rfl | rfl
  · exact ⟨_, there.1, rfl, _, asks.1⟩
  · exact ⟨_, there.2, rfl, _, asks.2⟩

namespace Policed

theorem congr (h : db.Policed expressions name) (triggers : after.triggers = db.triggers) (checks : after.checks = db.checks) :
    after.Policed expressions name := by
  refine ⟨fun e mem => h.known e (checks ▸ mem), fun e mem => ?_, ?_⟩
  · obtain ⟨path, gs, standing, there⟩ := h.polices e (checks ▸ mem)
    exact ⟨path, gs, standing, triggers ▸ there⟩
  · unfold TriggersApart
    rw [triggers]
    exact h.apart

theorem gave {table : String} {B : Body → Prop} (h : db.Policed expressions name) (gave : Gave table B db after) :
    after.Policed expressions name := by
  rw [gave.rest]
  exact h.congr rfl rfl

/-- Triggers that are made in the place of others, but of none of a check, leave the checks standing. -/
theorem replaceTriggers (h : db.Policed expressions name)
    (others : ∀ path expression hs, Check.standing? name path expression = some hs → ∀ g ∈ hs, ∀ g' ∈ gs,
      sameName g.name g'.name = false)
    (made : db.replaceTriggers gs = .ok after) : after.Policed expressions name := by
  have apart := h.apart.replaceTriggers made
  obtain ⟨l, rfl, mem⟩ := replaceTriggers_eq_ok made
  refine ⟨h.known, fun e listed => ?_, apart⟩
  obtain ⟨path, hs, standing, there⟩ := h.polices e listed
  exact ⟨path, hs, standing, fun g own => (mem g).2 (.inr ⟨there g own, others path _ hs standing g own⟩)⟩

theorem createTrigger (h : db.Policed expressions name) {g : Trigger} (made : db.createTrigger g = .ok after) :
    after.Policed expressions name := by
  have apart := h.apart.createTrigger made
  obtain ⟨_, -, made⟩ := bind_eq_ok.1 made
  split at made
  · cases made
  · cases made
    refine ⟨h.known, fun e listed => ?_, apart⟩
    obtain ⟨path, hs, standing, there⟩ := h.polices e listed
    exact ⟨path, hs, standing, fun g own => List.mem_cons_of_mem _ (there g own)⟩

theorem createIndex (h : db.Policed expressions name) {i : Index} (made : db.createIndex i = .ok after) :
    after.Policed expressions name := by
  rcases createIndex_eq_ok made with ⟨-, rfl⟩ | ⟨_, -, -, rfl⟩
  · exact h
  · exact h.congr rfl rfl

theorem createTable {other : CollectionName} (h : db.Policed expressions name) (made : db.createTable other = .ok after) :
    after.Policed expressions name := by
  unfold Database.createTable at made
  split at made
  · cases made
    exact h
  · split at made <;> cases made
    exact h.congr rfl rfl

theorem promote {path : FieldPath} {unique : Bool} {time : Int} (h : db.Policed expressions name)
    (made : db.promote name path unique time = .ok after) : after.Policed expressions name := by
  obtain ⟨placed, synced, filled, indexed, ensured, replaced, written, created, rfl⟩ := promote_steps made
  obtain ⟨f, -, -, rfl⟩ := ensureColumn_tables ensured
  have placed : (db.mapTable name.text f).Policed expressions name := h.congr rfl rfl
  have synced := placed.replaceTriggers (fun _ _ _ standing g own h copy => Check.apart_of_standing standing own copy) replaced
  exact ((synced.gave written).createIndex created).congr rfl rfl

/-- A registration leaves the checks standing, where different expressions have different digests: triggers that it replaces are
of a check on its expression. -/
theorem registers (h : db.Policed expressions name) {path : FieldPath} (mem : expression ∈ expressions)
    (distinct : ∀ a ∈ expressions, ∀ b ∈ expressions, Check.digest a = Check.digest b → a = b)
    (registers : db.Registers name path expression gs after) : after.Policed expressions name := by
  obtain ⟨made, mid, time, replaced, rfl⟩ := registers
  have apart := h.apart.replaceTriggers replaced
  obtain ⟨l, rfl, there⟩ := replaceTriggers_eq_ok replaced
  have own : ∀ g ∈ gs, g ∈ l := fun g mem => (there g).2 (.inl mem)
  -- an expression that has lost a trigger is the one that is registered
  have old : ∀ e ∈ db.checks, Polices { db with triggers := l } name e.expression := by
    intro e listed
    obtain ⟨path', hs, standing, present⟩ := h.polices e listed
    by_cases lost : ∃ g ∈ hs, ∃ g' ∈ gs, sameName g.name g'.name = true
    · obtain ⟨g, hg, g', hg', same⟩ := lost
      rw [distinct _ (h.known e listed) _ mem (Check.digest_eq_of_standing standing made hg hg' same)]
      exact ⟨path, gs, made, own⟩
    · refine ⟨path', hs, standing, fun g hg => (there g).2 (.inr ⟨present g hg, fun g' hg' => ?_⟩)⟩
      exact Bool.eq_false_iff.2 fun same => lost ⟨g, hg, g', hg', same⟩
  unfold recordCheck
  split
  · exact ⟨h.known, old, apart⟩
  · exact ⟨List.forall_mem_append.2 ⟨h.known, List.forall_mem_singleton.2 mem⟩,
      List.forall_mem_append.2 ⟨old, List.forall_mem_singleton.2 ⟨path, gs, made, own⟩⟩, apart⟩

end Policed

theorem policed_empty : empty.Policed expressions name :=
  ⟨fun _ mem => absurd mem List.not_mem_nil, fun _ mem => absurd mem List.not_mem_nil, .nil⟩

end Database

end Dossier
