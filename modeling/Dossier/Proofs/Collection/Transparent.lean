import Dossier.Proofs.Collection.Calls
import Dossier.Proofs.Collection.Opening
import Dossier.Proofs.Session.Run

/-!
# Runs with and without promotions

A collection answers calls on documents, times aside, the same whether paths are promoted between them or not, and ends
with the same documents (`Workspace.transparent_of_settled`). That holds as long as updates change settled documents at
promoted paths: there the update that overwrites documents tells a change by their values, the one in place by their
texts.
-/

namespace Dossier

open Outcome Database Dossier.Action

/-- A call of a collection, and the time at which it is made. -/
structure Call where
  request : CollectionRequest
  time : Int

/-- The call is one on documents. -/
def Call.onDocuments (c : Call) : Bool := c.request.onDocuments

/-- The reply without the times of documents. -/
def Reply.untimed : Reply → Reply
  | .within reply => .within reply.untimed
  | reply => reply

/-- The identifiers and bodies of a collection's documents, in insertion order. -/
def Database.documents (db : Database) (collection : String) : List (String × Body) :=
  (db.table? collection).elim [] fun t => t.rows.map fun r => (r.id, r.data)

namespace Workspace

/-- The first session of a store on a new file. -/
def fresh (ids : IdSource) : Workspace := ⟨⟨.empty, File.empty.connect 0, none⟩, 0, 0, ids, [], .still 0⟩

/-- Answers a call at its time. -/
def answer (collection : String) (w : Workspace) (call : Call) : Reply × Workspace :=
  (Request.run (.within collection call.request)).run { w with clock := .still call.time }

/-- Answers calls one after another. -/
def answerAll (collection : String) (w : Workspace) : List Call → List (Call × Reply) × Workspace
  | [] => ([], w)
  | call :: rest =>
    let (reply, w) := w.answer collection call
    let (replies, w) := w.answerAll collection rest
    ((call, reply) :: replies, w)

/-- In two runs of the same calls on documents, whatever a call changes at the paths that are promoted in the second
one is settled. -/
def Settled (collection : String) (w w' : Workspace) (plain promoted : List Call) : Prop :=
  ∀ earlier call later earlier' call' later', plain = earlier ++ call :: later → promoted = earlier' ++ call' :: later' →
    call'.onDocuments = true → (earlier'.filter Call.onDocuments).length = earlier.length →
    call.request.Settles collection ((w'.answerAll collection earlier').2.current.resolver collection)
      (w.answerAll collection earlier).2.current

section
variable {timed : Prop} {collection : String} {name : CollectionName} {w w' v v' : Workspace}

/-! ## One call -/

/-- The reply to what a request ends with. -/
def replyTo : Except StoreError CollectionReply → Reply
  | .ok reply => .within reply
  | .error e => .failed e

theorem answer_eq (call : Call) {r : Except StoreError CollectionReply}
    (made : (call.request.run collection).result { w with clock := .still call.time } = (r, v)) :
    w.answer collection call = (replyTo r, v) := by
  unfold answer
  rw [Request.run, Reply.run_ofAction_eq, made]
  cases r <;> rfl

theorem result_run_of_opened {c : Collection} (request : CollectionRequest)
    (opened : (Collection.openNamed collection).result w = (.ok c, v)) :
    (request.run collection).result w = (request.perform c).result v := by
  unfold CollectionRequest.run
  rw [result_bind, opened]

/-- Two sessions between transactions, beside each other: in both the collection has, or is about to have, the same
documents, and in the first one nothing is promoted. -/
structure Beside (timed : Prop) (name : CollectionName) (w w' : Workspace) : Prop where
  orderly : w.Orderly
  orderly' : w'.Orderly
  unlocked : w.Unlocked
  unlocked' : w'.Unlocked
  idle : w.base = none
  idle' : w'.base = none
  aware : w.Aware name
  aware' : w'.Aware name
  ids : w.ids = w'.ids
  twinned : Twinned name timed ⟨[]⟩ (w'.current.resolver name.text) w.current w'.current

/-- Between transactions again, after a call that left the collection the same on both sides. -/
theorem Pair.beside {resolver' : Resolver} (pair : Pair timed (Twins name timed ⟨[]⟩ resolver') v v') (idle : v.base = none)
    (idle' : v'.base = none) : Beside timed name v v' := by
  obtain ⟨t, t', found, found', -⟩ := pair.current.tables
  have resolves := pair.current.right.resolves
  exact ⟨pair.orderly, pair.orderly', pair.unlocked, pair.unlocked', idle, idle', .inl (by rw [found]; rfl),
    .inl (by rw [found']; rfl), pair.ids, by rw [resolves]; exact pair.current.twinned⟩

/-- The collection opens on both sides. -/
theorem Beside.exists_opened (h : Beside timed name w w') (parsed : CollectionName.parse name.text = .ok name)
    {time time' : Int} (times : timed → time = time') : ∃ v v',
      (Collection.openNamed name.text).result { w with clock := .still time } = (.ok ⟨name, ⟨[]⟩⟩, v)
      ∧ (Collection.openNamed name.text).result { w' with clock := .still time' } = (.ok ⟨name, w'.current.resolver name.text⟩, v')
      ∧ v.base = none ∧ v'.base = none ∧ w.current.createTable name = .ok v.current ∧ v.clock = .still time
      ∧ Pair timed (Twins name timed ⟨[]⟩ (w'.current.resolver name.text)) v v' := by
  obtain ⟨d, d', made, made', twins⟩ := h.twinned
  obtain ⟨v, opened, kept, ids, clock, current⟩ := Collection.exists_opened (w := { w with clock := .still time }) parsed h.orderly
    h.unlocked h.idle h.aware made
  obtain ⟨v', opened', kept', ids', clock', current'⟩ := Collection.exists_opened (w := { w' with clock := .still time' }) parsed h.orderly'
    h.unlocked' h.idle' h.aware' made'
  rw [twins.left.resolves] at opened
  rw [twins.right.resolves] at opened'
  have idle : v.base = none := kept.base.trans h.idle
  have idle' : v'.base = none := kept'.base.trans h.idle'
  refine ⟨v, v', opened, opened', idle, idle', by rw [current]; exact made, clock, kept.orderly, kept'.orderly,
    kept.unlocked h.unlocked, kept'.unlocked h.unlocked', by rw [idle, idle'], ids.trans (h.ids.trans ids'.symm), ?_, ?_⟩
  · exact fun at_ => by rw [clock, clock', times at_]
  · rw [current, current']
    exact twins

/-- A call on documents is answered alike, times aside. -/
theorem Beside.answer (h : Beside timed name w w') (parsed : CollectionName.parse name.text = .ok name)
    {request : CollectionRequest} (onDocuments : request.onDocuments = true) {time time' : Int} (times : timed → time = time')
    (fits : request.Fits) (apt : timed ∨ request.Timeless)
    (settles : request.Settles name.text (w'.current.resolver name.text) w.current) :
    (w'.answer name.text ⟨request, time'⟩).1.untimed = (w.answer name.text ⟨request, time⟩).1.untimed
      ∧ Beside timed name (w.answer name.text ⟨request, time⟩).2 (w'.answer name.text ⟨request, time'⟩).2 := by
  obtain ⟨v, v', opened, opened', idle, idle', made, clock, pair⟩ := h.exists_opened parsed times
  obtain ⟨ends, kept, kept', ids, clocks⟩ := CollectionRequest.matches_perform onDocuments fits apt pair (fun _ => ⟨time, clock⟩) (settles.createTable made)
  have one := result_run_of_opened request opened
  have other := result_run_of_opened request opened'
  cases result : (request.perform ⟨name, ⟨[]⟩⟩).result v with
  | mk r u =>
    cases result' : (request.perform ⟨name, w'.current.resolver name.text⟩).result v' with
    | mk r' u' =>
      rw [result, result'] at ends ids clocks
      rw [result] at kept one
      rw [result'] at kept' other
      rw [answer_eq ⟨request, time⟩ one, answer_eq ⟨request, time'⟩ other]
      have beside : Twins name timed ⟨[]⟩ (w'.current.resolver name.text) u.current u'.current → Beside timed name u u' :=
        fun twins => (pair.next kept kept' ids clocks twins).beside (kept.base.trans idle) (kept'.base.trans idle')
      cases r <;> cases r'
      · exact ⟨congrArg Reply.failed ends.1.symm, beside (ends.2 trivial)⟩
      · exact ends.elim
      · exact ends.elim
      · exact ⟨congrArg Reply.within ends.1.symm, beside ends.2⟩

/-- A promotion on the second side leaves the documents as they are. -/
theorem Beside.promote (h : Beside timed name w w') (parsed : CollectionName.parse name.text = .ok name) {path : String}
    {time : Int} (done : (w'.answer name.text ⟨.promote path false, time⟩).1.failure? = none) :
    Beside timed name w (w'.answer name.text ⟨.promote path false, time⟩).2 := by
  obtain ⟨d, d', made, made', twins⟩ := h.twinned
  obtain ⟨v, opened, kept, ids, -, current⟩ := Collection.exists_opened (w := { w' with clock := .still time }) parsed h.orderly'
    h.unlocked' h.idle' h.aware' made'
  have ran := result_run_of_opened (.promote path false) opened
  rw [CollectionRequest.perform, result_map] at ran
  cases result : (Collection.promote ⟨name, d'.resolver name.text⟩ path false).result v with
  | mk r u =>
    rw [result] at ran
    rw [answer_eq ⟨.promote path false, time⟩ ran] at done ⊢
    cases r with
    | error e => cases done
    | ok p =>
      obtain ⟨kept', ids', target, _, admits, promoted⟩ := Collection.promote_kept kept.orderly (kept.unlocked h.unlocked') result
      rw [current] at admits promoted
      have after := twins.promote admits promoted
      obtain ⟨_, t', -, found', -⟩ := after.tables
      refine ⟨h.orderly, kept'.orderly, h.unlocked, kept'.unlocked (kept.unlocked h.unlocked'), h.idle,
        kept'.base.trans (kept.base.trans h.idle'), h.aware, .inl (by rw [found']; rfl), ?_, ?_⟩
      · exact h.ids.trans (ids'.trans ids).symm
      · exact ⟨d, u.current, made, createTable_of_table? found', after⟩

/-! ## Runs -/

theorem answerAll_cons (collection : String) (w : Workspace) (call : Call) (rest : List Call) :
    w.answerAll collection (call :: rest) = ((call, (w.answer collection call).1)
        :: ((w.answer collection call).2.answerAll collection rest).1,
      ((w.answer collection call).2.answerAll collection rest).2) := rfl

/-- The replies to the calls on documents, times aside. -/
def replies (log : List (Call × Reply)) : List Reply := (log.filter fun e => e.1.onDocuments).map fun e => e.2.untimed

theorem replies_cons (c : Call) (reply : Reply) (log : List (Call × Reply)) : replies ((c, reply) :: log)
    = if c.onDocuments then reply.untimed :: replies log else replies log := by
  unfold replies
  cases documents : c.onDocuments <;> simp [documents]

/-- Beside each other, two runs of the same calls on documents answer them alike, whatever the second one promotes. -/
theorem Beside.answerAll (h : Beside timed name w w') (parsed : CollectionName.parse name.text = .ok name)
    {plain promoted : List Call} (onDocuments : ∀ c ∈ plain, c.onDocuments = true)
    (same : (promoted.filter Call.onDocuments).map Call.request = plain.map Call.request)
    (others : ∀ c ∈ promoted, c.onDocuments = false → ∃ path, c.request = .promote path false)
    (clocks : timed → promoted.filter Call.onDocuments = plain) (fits : ∀ c ∈ plain, c.request.Fits) (apt : timed ∨ ∀ c ∈ plain, c.request.Timeless)
    (successful : ∀ e ∈ (w'.answerAll name.text promoted).1, e.1.onDocuments = false → e.2.failure? = none)
    (settled : Settled name.text w w' plain promoted) :
    replies (w'.answerAll name.text promoted).1 = replies (w.answerAll name.text plain).1
      ∧ Beside timed name (w.answerAll name.text plain).2 (w'.answerAll name.text promoted).2 := by
  induction promoted generalizing plain w w' with
  | nil =>
    obtain rfl : plain = [] := by simpa using same.symm
    exact ⟨rfl, h⟩
  | cons c rest ih =>
    rw [answerAll_cons] at successful ⊢
    cases documents : c.onDocuments with
    | true =>
      rw [List.filter_cons_of_pos documents] at same clocks
      cases plain with
      | nil => cases same
      | cons d ds =>
        rw [List.map_cons, List.map_cons, List.cons.injEq] at same
        obtain ⟨request, time⟩ := d
        obtain ⟨request', time'⟩ := c
        obtain ⟨eq, same⟩ := same
        obtain rfl : request' = request := eq
        have times : timed → time = time' := fun at_ => by
          have := (List.cons.inj (clocks at_)).1
          exact (Call.mk.inj this).2.symm
        obtain ⟨reply, next⟩ := h.answer parsed documents times (fits ⟨_, time⟩ List.mem_cons_self) (apt.imp_right fun timeless => timeless ⟨_, time⟩ List.mem_cons_self)
          (settled [] ⟨_, time⟩ ds [] ⟨_, time'⟩ rest rfl rfl documents rfl)
        obtain ⟨later, last⟩ := ih next (fun e mem => onDocuments e (List.mem_cons_of_mem _ mem)) same
          (fun e mem => others e (List.mem_cons_of_mem _ mem)) (fun at_ => (List.cons.inj (clocks at_)).2)
          (fun e mem => fits e (List.mem_cons_of_mem _ mem)) (apt.imp_right fun timeless e mem => timeless e (List.mem_cons_of_mem _ mem))
          (fun e mem => successful e (List.mem_cons_of_mem _ mem)) (by
            intro earlier call later earlier' call' later' eq eq' documents' length
            refine settled (_ :: earlier) call later (_ :: earlier') call' later' (congrArg _ eq) (congrArg _ eq') documents' ?_
            rw [List.filter_cons_of_pos documents, List.length_cons, List.length_cons, length])
        refine ⟨?_, last⟩
        have documents' : (⟨request', time⟩ : Call).onDocuments = true := documents
        rw [answerAll_cons, replies_cons, replies_cons, documents, documents', if_pos rfl, if_pos rfl, reply, later]
    | false =>
      obtain ⟨path, promotes⟩ := others c List.mem_cons_self documents
      obtain ⟨request, time⟩ := c
      obtain rfl : request = .promote path false := promotes
      have next := h.promote parsed (successful _ List.mem_cons_self documents)
      obtain ⟨later, last⟩ := ih next onDocuments (by rwa [List.filter_cons_of_neg (by simp [documents])] at same)
        (fun e mem => others e (List.mem_cons_of_mem _ mem))
        (fun at_ => by have all := clocks at_; rwa [List.filter_cons_of_neg (by simp [documents])] at all) fits apt
        (fun e mem => successful e (List.mem_cons_of_mem _ mem)) (by
          intro earlier call later earlier' call' later' eq eq' documents' length
          refine settled earlier call later (_ :: earlier') call' later' eq (congrArg _ eq') documents' ?_
          rw [List.filter_cons_of_neg (by simp [documents]), length])
      refine ⟨?_, last⟩
      rw [replies_cons, documents]
      exact later

/-- Between transactions, the collection has the same documents on both sides. -/
theorem Beside.documents (h : Beside timed name w w') : w'.current.documents name.text = w.current.documents name.text := by
  have made : ∀ {db after : Database}, db.createTable name = .ok after → after.documents name.text = db.documents name.text := by
    intro db after made
    unfold Database.createTable at made
    split at made
    · cases made
      rfl
    · rename_i missing
      split at made
      · cases made
      · cases made
        have none_ : db.tables.find? (fun t => Text.sameName t.name name.text) = none := by
          simpa [Database.table?] using missing
        simp [Database.documents, Database.table?, none_, Text.sameName_refl]
  obtain ⟨d, d', created, created', twins⟩ := h.twinned
  obtain ⟨t, t', found, found', -, rows, -⟩ := twins.tables
  rw [← made created, ← made created']
  unfold Database.documents
  rw [found, found']
  show t'.rows.map (fun r => (r.id, r.data)) = t.rows.map fun r => (r.id, r.data)
  rw [eq_comm, ← List.forall₂_eq_eq_eq, List.forall₂_map_left_iff, List.forall₂_map_right_iff]
  exact rows.imp fun _ _ twin => by rw [twin.id, twin.data]

theorem beside_fresh (timed : Prop) (name : CollectionName) (ids : IdSource) : Beside timed name (fresh ids) (fresh ids) :=
  ⟨rfl, rfl, fun _ => rfl, fun _ => rfl, rfl, rfl, .inr rfl, .inr rfl, rfl, twinned_empty name timed⟩

/-- A collection whose name cannot be read answers every call with that. -/
theorem answerAll_of_error {e : CompileError} (refused : CollectionName.parse collection = .error e) (w : Workspace)
    (calls : List Call) : (w.answerAll collection calls).1 = calls.map (fun c => (c, Reply.failed (.compile e)))
      ∧ (w.answerAll collection calls).2.current = w.current := by
  induction calls generalizing w with
  | nil => exact ⟨rfl, rfl⟩
  | cons call rest ih =>
    have made : (call.request.run collection).result { w with clock := .still call.time }
        = (.error (.compile e), { w with clock := .still call.time }) := by
      unfold CollectionRequest.run
      rw [result_bind, Collection.result_openNamed_of_error refused]
    rw [answerAll_cons, answer_eq call made]
    obtain ⟨later, seen⟩ := ih { w with clock := .still call.time }
    exact ⟨by rw [later]; rfl, seen⟩

end

/-- The second run makes the calls of the first, all on documents, and promotes paths between them, none as unique. -/
structure Extends (plain promoted : List Call) : Prop where
  same : (promoted.filter Call.onDocuments).map Call.request = plain.map Call.request
  others : ∀ c ∈ promoted, c.onDocuments = false → ∃ path, c.request = .promote path false

/-- Take two runs of one collection of a new store that make the same calls on documents with the same identifiers to
come, at the same times unless no call asks for a time, while the second one also promotes paths, with success. If the
statements of the calls fit and what updates change at promoted paths is settled, all calls are answered alike, times of documents aside, and the runs end
with the same documents. -/
theorem transparent_of_settled {ids : IdSource} {collection : String} {plain promoted : List Call}
    (calls : Extends plain promoted)
    (clocks : promoted.filter Call.onDocuments = plain ∨ ∀ c ∈ plain, c.request.Timeless)
    (fits : ∀ c ∈ plain, c.request.Fits)
    (successful : ∀ e ∈ ((fresh ids).answerAll collection promoted).1, e.1.onDocuments = false → e.2.failure? = none)
    (settled : Settled collection (fresh ids) (fresh ids) plain promoted) :
    replies ((fresh ids).answerAll collection promoted).1 = replies ((fresh ids).answerAll collection plain).1
      ∧ ((fresh ids).answerAll collection promoted).2.current.documents collection
        = ((fresh ids).answerAll collection plain).2.current.documents collection := by
  have onDocuments : ∀ c ∈ plain, c.onDocuments = true := by
    intro c mem
    have listed : c.request ∈ (promoted.filter Call.onDocuments).map Call.request := calls.same ▸ List.mem_map_of_mem mem
    obtain ⟨d, found, eq⟩ := List.mem_map.1 listed
    unfold Call.onDocuments
    rw [← eq]
    exact (List.mem_filter.1 found).2
  cases parsed : CollectionName.parse collection with
  | error e =>
    obtain ⟨log, seen⟩ := answerAll_of_error parsed (fresh ids) plain
    obtain ⟨log', seen'⟩ := answerAll_of_error parsed (fresh ids) promoted
    have all : ∀ l : List Call, replies (l.map fun c => (c, Reply.failed (.compile e)))
        = ((l.filter Call.onDocuments).map Call.request).map fun _ => Reply.failed (.compile e) := by
      intro l
      unfold replies
      rw [List.filter_map, List.map_map, List.map_map]
      rfl
    rw [log, log', seen, seen', all, all, calls.same, List.filter_eq_self.2 onDocuments]
    exact ⟨rfl, rfl⟩
  | ok name =>
    obtain rfl := CollectionName.text_of_parse parsed
    obtain ⟨answers, last⟩ := (beside_fresh (promoted.filter Call.onDocuments = plain) name ids).answerAll parsed onDocuments
      calls.same calls.others id fits clocks successful settled
    exact ⟨answers, last.documents⟩

/-! ## Two runs -/

/-- A document with a counter and a nested value. -/
def counted : Fields := [("count", .number (.whole ⟨3, by decide⟩)), ("b", .object [("d", .string "v")])]

/-- Changes of both. -/
def countedUp : Json :=
  .object [("$set", .object [("b.d", .string "w")]), ("$inc", .object [("count", .number (.whole ⟨2, by decide⟩))])]

/-- The changes as they are read. -/
def countedChanges : Changes :=
  ⟨[(⟨["b", "d"], by decide, by decide⟩, .string "w")], [], [(⟨["count"], by decide, by decide⟩, .whole ⟨2, by decide⟩)]⟩

/-- Inserts the document, changes it, and reads it by its nested value. -/
def countedCalls : List Call :=
  [⟨.insertOne (.object (("_id", .string "x") :: counted)), 1⟩, ⟨.update .one (.object [("_id", .string "x")]) countedUp false, 2⟩,
    ⟨.findOne (.object [("b.d", .string "w")]), 3⟩]

/-- The same with the nested value promoted before it is changed. -/
def promotedCalls : List Call :=
  countedCalls.take 1 ++ ⟨.promote "b.d" false, 1⟩ :: countedCalls.drop 1

/-- The changes make the same of the document in place and by overwriting it. -/
theorem settled_counted {b : Body} (stored : b.text = (Json.object counted).text) : countedChanges.Settled b counted where
  decoded := by
    unfold Body.decode
    rw [Body.tree_of_text (j := .object counted) rfl stored]
    rfl
  finite := rfl
  stored := stored
  sums := by
    intro s mem
    rcases List.mem_cons.1 mem with rfl | mem
    · trivial
    · obtain rfl := List.mem_singleton.1 mem
      refine Step.alike_of_signed (n := 2) rfl fun n found => ?_
      cases found
      rfl
  readable := by
    intro after applied
    cases applied
    decide +kernel
  unchanged := by
    intro after applied
    cases applied
    rw [stored]
    exact iff_of_false (by decide +kernel) (by decide +kernel)

theorem transparent_of_settled_counted : Extends countedCalls promotedCalls
    ∧ replies ((fresh (.start fun _ => "")).answerAll "c" promotedCalls).1
      = replies ((fresh (.start fun _ => "")).answerAll "c" countedCalls).1
    ∧ ((fresh (.start fun _ => "")).answerAll "c" promotedCalls).2.current.documents "c"
      = ((fresh (.start fun _ => "")).answerAll "c" countedCalls).2.current.documents "c" := by
  have calls : Extends countedCalls promotedCalls := by
    refine ⟨rfl, fun c mem other => ?_⟩
    simp only [promotedCalls, countedCalls, List.take, List.drop, List.cons_append, List.nil_append, List.mem_cons,
      List.not_mem_nil, or_false] at mem
    rcases mem with rfl | rfl | rfl | rfl
    · cases other
    · exact ⟨_, rfl⟩
    · cases other
    · cases other
  have successful : ∀ e ∈ ((fresh (.start fun _ => "")).answerAll "c" promotedCalls).1, e.1.onDocuments = false →
      e.2.failure? = none := by
    have all : ((fresh (.start fun _ => "")).answerAll "c" promotedCalls).1.all (fun e => e.1.onDocuments || e.2.failure?.isNone)
        = true := by decide +kernel
    intro e mem other
    have here := List.all_eq_true.1 all e mem
    rw [other, Bool.false_or, Option.isNone_iff_eq_none] at here
    exact here
  have stored : (((fresh (.start fun _ => "")).answerAll "c" (countedCalls.take 1)).2.current.table? "c").map
      (fun t => t.rows.map fun r => r.data.text) = some [(Json.object counted).text] := by decide +kernel
  have settled : Settled "c" (fresh (.start fun _ => "")) (fresh (.start fun _ => "")) countedCalls promotedCalls := by
    intro earlier call later earlier' call' later' split _ _ _
    rcases earlier with _ | ⟨first, _ | ⟨second, _ | ⟨third, _⟩⟩⟩ <;>
      simp only [countedCalls, List.nil_append, List.cons_append, List.cons.injEq] at split
    · obtain ⟨rfl, -⟩ := split
      trivial
    · obtain ⟨rfl, rfl, -⟩ := split
      intro f u _ parsed _ c eq _ t found r mem
      obtain rfl : c = countedChanges := by
        have := parsed.symm.trans (show Update.parse countedUp = .ok (.change countedChanges) from rfl)
        rw [eq] at this
        cases this
        rfl
      rw [show ((fresh (.start fun _ => "")).answerAll "c" (countedCalls.take 1)).2.current.table? "c" = some t from found] at stored
      have text : r.data.text ∈ t.rows.map fun r => r.data.text :=
        List.mem_map_of_mem ((targets_sublist t _ _).subset mem)
      have rows : t.rows.map (fun r => r.data.text) = _ := Option.some.inj stored
      rw [rows, List.mem_singleton] at text
      exact ⟨counted, settled_counted text⟩
    · obtain ⟨rfl, rfl, rfl, -⟩ := split
      trivial
    · simp at split
  have fits : ∀ c ∈ countedCalls, c.request.Fits := by
    intro c mem
    simp only [countedCalls, List.mem_cons, List.not_mem_nil, or_false] at mem
    rcases mem with rfl | rfl | rfl
    · trivial
    · intro f u read parsed
      cases read
      cases parsed
      exact ⟨fun s search => by cases search; decide, fun _ => ⟨rfl, List.forall_mem_singleton.2 rfl⟩⟩
    · intro f read
      cases read
      decide
  exact ⟨calls, transparent_of_settled calls (.inl rfl) fits successful settled⟩

/-- An object of two keys in an order. -/
def twoKeys (first second : String) : Json := .object [(first, .null), (second, .null)]

/-- Inserts a document with the object, and sets it to one with its keys in the other order. -/
def reorderingCalls : List Call :=
  [⟨.insertOne (.object [("_id", .string "x"), ("o", twoKeys "a" "b")]), 1⟩,
    ⟨.update .one (.object []) (.object [("$set", .object [("o", twoKeys "b" "a")])]) false, 2⟩]

/-- An update that changes nothing but the order of keys is made where the object is not promoted, and is not where it
is. -/
theorem not_transparent_of_reordering : ∃ promoted, Extends reorderingCalls promoted
    ∧ promoted.filter Call.onDocuments = reorderingCalls
    ∧ (∀ e ∈ ((fresh (.start fun _ => "")).answerAll "c" promoted).1, e.1.onDocuments = false → e.2.failure? = none)
    ∧ ((fresh (.start fun _ => "")).answerAll "c" promoted).2.current.documents "c"
      ≠ ((fresh (.start fun _ => "")).answerAll "c" reorderingCalls).2.current.documents "c" := by
  refine ⟨⟨.promote "o" false, 0⟩ :: reorderingCalls, ⟨rfl, fun c mem other => ?_⟩, rfl, fun e mem other => ?_, fun same => ?_⟩
  · rcases List.mem_cons.1 mem with rfl | mem
    · exact ⟨_, rfl⟩
    · have documents : reorderingCalls.all Call.onDocuments = true := rfl
      rw [List.all_eq_true.1 documents c mem] at other
      cases other
  · have all : ((fresh (.start fun _ => "")).answerAll "c" (⟨.promote "o" false, 0⟩ :: reorderingCalls)).1.all
        (fun e => e.1.onDocuments || e.2.failure?.isNone) = true := by decide +kernel
    have here := List.all_eq_true.1 all e mem
    rw [other, Bool.false_or, Option.isNone_iff_eq_none] at here
    exact here
  · have plain : (((fresh (.start fun _ => "")).answerAll "c" reorderingCalls).2.current.documents "c").map (fun d => d.2.text)
        = ["\x7b\"o\":\x7b\"b\":null,\"a\":null\x7d\x7d"] := by decide +kernel
    have promoted : (((fresh (.start fun _ => "")).answerAll "c" (⟨.promote "o" false, 0⟩ :: reorderingCalls)).2.current.documents
        "c").map (fun d => d.2.text) = ["\x7b\"o\":\x7b\"a\":null,\"b\":null\x7d\x7d"] := by decide +kernel
    rw [same, plain] at promoted
    simp at promoted

end Workspace

end Dossier
