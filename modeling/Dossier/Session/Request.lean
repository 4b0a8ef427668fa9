import Dossier.Collection.Basic
import Dossier.Collection.Check
import Dossier.Collection.Documents

/-!
# Requests to a session

A `Request` is a call of a session written down, and a `Reply` what comes back; a block of requests
runs in one transaction. A request to a collection opens the collection anew, so a bad name is
reported first, or goes to one that the caller has kept since it was opened. Such a collection takes for
promoted what was promoted then, whatever has been promoted or rolled back since; its table may be gone.
-/

namespace Dossier

/-- A call of a collection. `wanted` lists dotted paths whose values are asked for of each document. -/
inductive CollectionRequest
  | name
  | insertOne (document : Json)
  | insertMany (documents : List Json)
  | find (filter : Json) (listing : ListingRequest) (wanted : List String)
  | findOne (filter : Json)
  | findRaw (predicate : RawPredicate) (listing : ListingRequest) (wanted : List String)
  | count (filter : Json)
  | update (cardinality : Cardinality) (filter update : Json) (upsert : Bool)
  | replaceOne (filter replacement : Json) (upsert : Bool)
  | delete (cardinality : Cardinality) (filter : Json)
  | promote (path : String) (unique : Bool)
  | promoteCompound (paths : List String) (unique : Bool)
  | addCheck (path expression : String)
  | promotions
  | checks
  | schema
  | columnValues (column : String)
  | freeze
  | putBody (id data : String)

/-- What a collection answers. -/
inductive CollectionReply
  | name (name : String)
  | inserted (id : String)
  | insertedAll (ids : List String)
  | documents (found : List Document) (wanted : List String)
  | document (found : Option Document)
  | count (n : Int)
  | updated (result : UpdateResult)
  | deleted (n : Nat)
  | promoted (column : PromotedColumn)
  | compound (columns : List PromotedColumn)
  | check (constraint : CheckConstraint)
  | promotions (columns : List PromotedColumn)
  | checks (constraints : List CheckConstraint)
  | schema (s : TableSchema)
  | values (vs : List Value)
  | changed (n : Nat)
  | done

/-- A call of a session. `held` is a call of a collection that was opened before. The engine calls go past
the session's own count of levels. A block may end with a failure of its own, and may go on after a
request that failed. -/
inductive Request
  | within (collection : String) (request : CollectionRequest)
  | held (collection : Collection) (request : CollectionRequest)
  | begin
  | commit
  | rollback
  | depth
  | engineBegin
  | engineRollback
  | setVersion (version : Int)
  | transaction (requests : List Request) (failure : Option String) (keepGoing : Bool)

/-- What a session answers. A block answers its requests, tells its own failure, and the levels
that are open after it. -/
inductive Reply
  | within (reply : CollectionReply)
  | depth (levels : Nat)
  | block (replies : List Reply) (failure : Option StoreError) (levels : Option Nat)
  | failed (e : StoreError)

namespace CollectionRequest

open Dossier.Action

/-- Makes the call of a collection that has been opened. -/
def perform (c : Collection) : CollectionRequest → Action CollectionReply
  | name => return .name c.name.text
  | insertOne document => .inserted <$> c.insertOne document
  | insertMany documents => .insertedAll <$> c.insertMany documents
  | find filter listing wanted => do
    let l ← ofRequest listing.listing
    return .documents (← c.find filter l) wanted
  | findOne filter => .document <$> c.findOne filter
  | findRaw predicate listing wanted => do
    let l ← ofRequest listing.listing
    return .documents (← c.findRaw predicate l) wanted
  | count filter => .count <$> c.count filter
  | .update .one filter change upsert => .updated <$> c.updateOne filter change upsert
  | .update .many filter change upsert => .updated <$> c.updateMany filter change upsert
  | replaceOne filter replacement upsert => .updated <$> c.replaceOne filter replacement upsert
  | delete cardinality filter => .deleted <$> c.delete filter cardinality
  | promote path unique => .promoted <$> c.promote path unique
  | promoteCompound paths unique => .compound <$> c.promoteCompound paths unique
  | addCheck path expression => .check <$> c.addCheck path expression
  | promotions => .promotions <$> c.promotions
  | checks => .checks <$> c.checks
  | schema => .schema <$> c.schema
  | columnValues column => .values <$> c.columnValues column
  | freeze => do
    c.freeze
    return .done
  | putBody id data => .changed <$> c.putBody id data

/-- Opens the collection and makes the call. -/
def run (collection : String) (r : CollectionRequest) : Action CollectionReply := do
  r.perform (← Collection.openNamed collection)

end CollectionRequest

namespace Reply

/-- The reply to an action. -/
def ofAction (a : Action α) (reply : α → Workspace → Reply) : StateM Workspace Reply := do
  match ← ExceptT.run a with
  | .ok x => return reply x (← get)
  | .error e => return .failed e

/-- The reply to a step between transactions: the levels that are open after it. -/
def ofStep (a : Action Unit) : StateM Workspace Reply := ofAction a fun _ w => .depth w.depth

/-- The reply is a failure. -/
def failure? : Reply → Option StoreError
  | failed e => some e
  | _ => none

end Reply

namespace Request

/-- How a block ends: with the failure of a request that stopped it, else with its own. -/
def ending (stopped : Option StoreError) (failure : Option String) : Option StoreError :=
  stopped <|> failure.map fun text => .invalid (.custom text)

mutual
/-- Makes a call. -/
def run : Request → StateM Workspace Reply
  | within collection request => Reply.ofAction (request.run collection) fun r _ => .within r
  | held collection request => Reply.ofAction (request.perform collection) fun r _ => .within r
  | begin => Reply.ofStep Action.begin
  | commit => Reply.ofStep Action.commit
  | rollback => Reply.ofStep Action.rollback
  | depth => Reply.ofStep (pure ())
  | engineBegin => Reply.ofStep (Action.connect Connection.begin)
  | engineRollback => Reply.ofStep (Action.connect Connection.rollback)
  | setVersion version => Reply.ofStep (Action.alter fun db => .ok { db with version })
  | transaction requests failure keepGoing => do
    let (replies, outcome) ← Action.scope do
      let (replies, stopped) ← runAll keepGoing requests
      return (replies, ending stopped failure)
    return .block (replies.getD []) outcome (some (← get).depth)

/-- Makes calls one after another, up to the first that fails unless they go on after it. -/
def runAll (keepGoing : Bool) : List Request → StateM Workspace (List Reply × Option StoreError)
  | [] => return ([], none)
  | request :: rest => do
    let reply ← request.run
    match reply.failure?, keepGoing with
    | some e, false => return ([reply], some e)
    | _, _ =>
      let (replies, stopped) ← runAll keepGoing rest
      return (reply :: replies, stopped)
end

/-- A block without a transaction of its own: its replies and how it ends. -/
def runBlock (requests : List Request) (failure : Option String) (keepGoing : Bool) :
    StateM Workspace (List Reply × Option StoreError) := do
  let (replies, stopped) ← runAll keepGoing requests
  return (replies, ending stopped failure)

end Request

end Dossier
