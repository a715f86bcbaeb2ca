import Relay.Api.Diagnoses
import Relay.Api.Dlq
import Relay.Api.Events
import Relay.Delivery.Worker
import Relay.Lib.Transition

/-!
# The pipeline

All processes over one store: any number of workers, schedulers and requests,
each taking one step at a time in any order. A label says who steps and what the
surroundings answer. Workers may crash or have a call raise at any await, and
requests may fail at any await. An operator may reset a breaker at any time. The
runs are those in which no endpoint is deleted: DELETE is among the handlers of
`Api.Routes`.
-/

namespace Relay

open Enqueue RetryQueue Worker Api

/-- One stream entry in the hands of `handle_message`; `startedAt` is history
that no step reads. -/
structure Handling where
  messageId : Nat
  fields : Fields
  startedAt : ℚ
  pc : Pc

/-- A shard task: the entries it was given and has not begun, and the one it
handles. `batchAt`, when its last read or claim was, is history. -/
structure Consumer where
  shard : Nat
  crashed : Bool := false
  batchAt : ℚ := 0
  todo : List (Nat × Fields) := []
  current : Option Handling := none

inductive Request where
  | ingest (r : Ingest)
  | replay (r : Replay)
  | approve (r : Approve)

/-- A request as the client makes it. -/
inductive Call where
  | ingest (tenantId : Uuid) (body : EventCreate)
  | replay (tenantId : Uuid) (body : ReplayRequest)
  | approve (tenantId actionId : Uuid)

def Call.start : Call → Request
  | .ingest tenantId body => .ingest (Ingest.start tenantId body)
  | .replay tenantId body => .replay (Replay.start tenantId body)
  | .approve tenantId actionId => .approve (Approve.start tenantId actionId)

structure World where
  clock : ℚ
  store : Store
  workers : Nat → Consumer
  requests : Nat → Option Request

inductive Label where
  | tick (time : ℚ)
  | createTenant (t : Tenant)
  | createEndpoint (e : Endpoint)
  | patchEndpoint (id : Uuid) (url : Option String) (status : Option EndpointStatus)
      (eventTypes : Option (List String))
  | proposeAction (a : AgentAction)
  | resetBreaker (tenantId endpointId : Uuid)
  | read (w : Nat)
  | claim (w : Nat) (ids : List Nat)
  | take (w : Nat)
  | work (w : Nat) (c : Choice)
  | raise (w : Nat)
  | crash (w : Nat)
  | schedule (now : ℚ) (limit : Nat)
  | arrive (r : Nat) (call : Call)
  | serve (r : Nat) (ids : List Uuid)
  | fail (r : Nat)

namespace World

def setWorker (x : World) (w : Nat) (c : Consumer) : World :=
  { x with workers := Function.update x.workers w c }

def setRequest (x : World) (r : Nat) (q : Request) : World :=
  { x with requests := Function.update x.requests r (some q) }

def withStore (x : World) (s : Store) : World := { x with store := s }

def withDb (x : World) (db : Db) : World := { x with store := { x.store with db := db } }

/-- The log of a worker's shard. -/
def streamOf (x : World) (w : Nat) : StreamLog Fields :=
  x.store.queues.streams (x.workers w).shard

/-- Free to read or claim: alive, with nothing left of the last batch. -/
def Idle (x : World) (w : Nat) : Prop :=
  (x.workers w).crashed = false ∧ (x.workers w).todo = [] ∧
    (x.workers w).current.isNone = true

instance (x : World) (w : Nat) : Decidable (x.Idle w) := inferInstanceAs (Decidable (_ ∧ _))

/-- PATCH assigns the fields that are given. -/
def patched (e : Endpoint) (url : Option String) (status : Option EndpointStatus)
    (eventTypes : Option (List String)) : Endpoint :=
  { e with
    url := url.getD e.url
    status := status.getD e.status
    eventTypes := eventTypes.getD e.eventTypes }

def stepTick (time : ℚ) (x : World) : Option World :=
  if x.clock ≤ time then some { x with clock := time } else none

def stepCreateTenant (t : Tenant) (x : World) : Option World :=
  if (x.store.db.tenant t.id).isNone then
    some (x.withDb { x.store.db with tenants := x.store.db.tenants ++ [t] })
  else none

def stepCreateEndpoint (e : Endpoint) (x : World) : Option World :=
  if (x.store.db.endpoint e.id).isNone ∧ (x.store.db.tenant e.tenantId).isSome then
    some (x.withDb { x.store.db with endpoints := x.store.db.endpoints ++ [e] })
  else none

def stepPatchEndpoint (id : Uuid) (url : Option String) (status : Option EndpointStatus)
    (eventTypes : Option (List String)) (x : World) : Option World :=
  some (x.withDb { x.store.db with
    endpoints := Table.update Endpoint.id x.store.db.endpoints id
      (fun e => patched e url status eventTypes) })

def stepProposeAction (a : AgentAction) (x : World) : Option World :=
  if (x.store.db.action a.id).isNone then
    some (x.withDb { x.store.db with actions := x.store.db.actions ++ [a] })
  else none

/-- POST /v1/endpoints/{id}/breaker/reset of an endpoint that the tenant owns. -/
def stepResetBreaker (tenantId endpointId : Uuid) (x : World) : Option World :=
  if endpointId ∈ x.store.db.tenantEndpointIds tenantId then
    some (x.withStore (x.store.resetBreaker endpointId))
  else none

/-- XREADGROUP with COUNT 1 on the worker's shard. -/
def stepRead (w : Nat) (x : World) : Option World :=
  if x.Idle w then
    match (x.streamOf w).entries[(x.streamOf w).lastDelivered]? with
    | none => none
    | some f =>
      some ((x.withStore (x.store.onStream (x.workers w).shard
          (fun log => log.xreadgroup w x.clock))).setWorker w
        { x.workers w with batchAt := x.clock, todo := [((x.streamOf w).lastDelivered, f)] })
  else none

/-- XAUTOCLAIM: some stale entries, at most COUNT, in any choice. -/
def stepClaim (w : Nat) (ids : List Nat) (x : World) : Option World :=
  if x.Idle w ∧ ids.Nodup ∧ ids.length ≤ reclaimCount ∧
      ∀ id ∈ ids, (x.streamOf w).Stale (reclaimMinIdleMs / 1000) x.clock id then
    some ((x.withStore (x.store.onStream (x.workers w).shard
        (fun log => log.xclaim w x.clock ids))).setWorker w
      { x.workers w with
        batchAt := x.clock
        todo := ids.filterMap (fun id => ((x.streamOf w).entries[id]?).map (fun f => (id, f))) })
  else none

/-- The next entry of the batch goes to `handle_message`. -/
def stepBegin (w : Nat) (x : World) : Option World :=
  if (x.workers w).crashed then none
  else
    match (x.workers w).todo, (x.workers w).current with
    | (id, f) :: rest, none =>
      some (x.setWorker w { x.workers w with
        todo := rest, current := some ⟨id, f, x.clock, .loadDelivery x.clock⟩ })
    | _, _ => none

/-- The handling at its next location; `finished` ends it. -/
def Consumer.goto (c : Consumer) (h : Handling) (pc : Pc) : Consumer :=
  match pc with
  | .finished => { c with current := none }
  | _ => { c with current := some { h with pc := pc } }

def stepWork (env : Env) (w : Nat) (c : Choice) (x : World) : Option World :=
  if (x.workers w).crashed then none
  else
    match (x.workers w).current with
    | none => none
    | some h =>
      match h.pc.step env x.clock c (x.workers w).shard h.messageId h.fields.deliveryId
          x.store with
      | none => none
      | some (s, pc) =>
        some ((x.withStore s).setWorker w (Consumer.goto (x.workers w) h pc))

/-- An exception. At the XACK it leaves `handle_message` and ends the batch. -/
def stepRaise (w : Nat) (x : World) : Option World :=
  if (x.workers w).crashed then none
  else
    match (x.workers w).current with
    | none => none
    | some h =>
      match h.pc with
      | .ack => some (x.setWorker w { x.workers w with todo := [], current := none })
      | pc => some (x.setWorker w (Consumer.goto (x.workers w) h pc.onRaise))

def stepCrash (w : Nat) (x : World) : Option World :=
  some (x.setWorker w { x.workers w with crashed := true, todo := [], current := none })

def stepSchedule (now : ℚ) (limit : Nat) (x : World) : Option World :=
  some (x.withStore (x.store.moveDueToStreams now limit))

def stepArrive (r : Nat) (call : Call) (x : World) : Option World :=
  if (x.requests r).isNone then some (x.setRequest r call.start) else none

def stepServe (env : Env) (r : Nat) (ids : List Uuid) (x : World) : Option World :=
  match x.requests r with
  | none => none
  | some (.ingest q) =>
    match q.step env.settings.streamShards ids x.store with
    | none => none
    | some (s, q') => some ((x.withStore s).setRequest r (.ingest q'))
  | some (.replay q) =>
    match q.step env.settings.streamShards x.store with
    | none => none
    | some (s, q') => some ((x.withStore s).setRequest r (.replay q'))
  | some (.approve q) =>
    match q.step env.settings.streamShards x.clock x.store with
    | none => none
    | some (s, q') => some ((x.withStore s).setRequest r (.approve q'))

/-- A failed request is gone; an ingestion leaves its result. -/
def stepFail (r : Nat) (x : World) : Option World :=
  match x.requests r with
  | some (.ingest q) =>
    match q.fail x.store with
    | none => none
    | some (s, q') => some ((x.withStore s).setRequest r (.ingest q'))
  | some (.replay q) =>
    some (x.setRequest r (.replay { q with pc := .done (.error ⟨500, "internal", ""⟩) }))
  | some (.approve q) =>
    some (x.setRequest r (.approve { q with pc := .done (.error ⟨500, "internal", ""⟩) }))
  | none => none

def step (env : Env) : Label → World → Option World
  | .tick time => stepTick time
  | .createTenant t => stepCreateTenant t
  | .createEndpoint e => stepCreateEndpoint e
  | .patchEndpoint id url status eventTypes => stepPatchEndpoint id url status eventTypes
  | .proposeAction a => stepProposeAction a
  | .resetBreaker tenantId endpointId => stepResetBreaker tenantId endpointId
  | .read w => stepRead w
  | .claim w ids => stepClaim w ids
  | .take w => stepBegin w
  | .work w c => stepWork env w c
  | .raise w => stepRaise w
  | .crash w => stepCrash w
  | .schedule now limit => stepSchedule now limit
  | .arrive r call => stepArrive r call
  | .serve r ids => stepServe env r ids
  | .fail r => stepFail r

/-- An empty store; workers, if any, have just started on their shards. -/
def initial (shardOf : Nat → Nat) : World where
  clock := 0
  store :=
    { db := {}
      queues := ⟨ZSet.empty, fun _ => StreamLog.empty⟩
      ordered := fun _ => []
      locks := fun _ => none
      breakers := fun _ => {}
      buckets := fun _ => none
      inflight := fun _ => none
      published := []
      log := []
      issued := [] }
  workers := fun w => { shard := shardOf w }
  requests := fun _ => none

end World

end Relay
