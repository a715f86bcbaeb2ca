import Relay.Api.Alone
import Relay.Pipeline
import Mathlib.Data.List.Sort

/-!
# The API of a tenant

The handlers that a tenant's key opens, each run on its own. The tenant is the one
that `require_tenant` finds for the key.
-/

namespace Relay.Api

open CircuitBreaker

/-- `ORDER BY` of columns that the rows leave out: when they were created or updated. -/
structure Orders where
  endpoints : List Endpoint → List Endpoint
  created : List Delivery → List Delivery
  updated : List Delivery → List Delivery
  diagnoses : List Diagnosis → List Diagnosis
  actions : List AgentAction → List AgentAction

/-- What a request draws: ids, a signing secret and the time. -/
structure Draws where
  fresh : Nat → Uuid
  secret : String
  clock : ℚ

inductive ApiRequest where
  | createEndpoint (url : String) (ordering : Ordering) (eventTypes : List String)
  | listEndpoints
  | getEndpoint (endpointId : Uuid)
  | patchEndpoint (endpointId : Uuid) (url : Option String) (status : Option EndpointStatus)
      (eventTypes : Option (List String))
  | getBreaker (endpointId : Uuid)
  | resetBreaker (endpointId : Uuid)
  | deleteEndpoint (endpointId : Uuid)
  | ingest (body : EventCreate)
  | getEvent (eventId : Uuid)
  | listDeliveries (endpointId : Option Uuid) (status : Option String) (limit offset : Nat)
  | listAttempts (deliveryId : Uuid)
  | listDlq (endpointId : Option Uuid) (limit offset : Nat)
  | replay (body : ReplayRequest)
  | listDiagnoses (endpointId : Option Uuid) (status : Option String) (limit : Nat)
  | getDiagnosis (diagnosisId : Uuid)
  | acknowledge (diagnosisId : Uuid)
  | listActions (diagnosisId : Uuid)
  | approve (actionId : Uuid)
  | reject (actionId : Uuid)

structure EndpointOut where
  id : Uuid
  url : String
  ordering : Ordering
  status : EndpointStatus
  eventTypes : List String

structure BreakerOut where
  state : BreakerState
  consecutive : Nat
  openedAt : Option ℚ
  lastProbeAt : Option ℚ

structure DeliveryStatusOut where
  deliveryId : Uuid
  endpointId : Uuid
  status : DeliveryStatus
  attemptCount : Nat

structure AttemptOut where
  attemptNumber : Nat
  latencyMs : Nat
  httpStatus : Option Nat
  errorClass : Option String
  responseSnippet : Option String

structure EventOut where
  id : Uuid
  eventType : String
  payload : String
  idempotencyKey : Option String
  deliveries : List DeliveryStatusOut

inductive Response where
  | error (e : ApiError)
  | noContent
  | endpoint (e : EndpointOut)
  | endpointCreated (e : EndpointOut) (signingSecret : String)
  | endpoints (es : List EndpointOut)
  | breaker (b : BreakerOut)
  | accepted (eventId : Uuid)
  | event (e : EventOut)
  | deliveries (ds : List Delivery)
  | attempts (as : List AttemptOut)
  | replayed (deliveryIds : List Uuid)
  | diagnosis (d : Diagnosis)
  | diagnoses (ds : List Diagnosis)
  | action (a : AgentAction)
  | actions (as : List AgentAction)

def Endpoint.out (e : Endpoint) : EndpointOut :=
  ⟨e.id, e.url, e.ordering, e.status, e.eventTypes⟩

/-- `get_state` of a breaker. -/
def Breaker.out (b : Breaker) : BreakerOut :=
  ⟨b.current, b.consecutive.getD 0, b.openedAt, b.lastProbeAt⟩

def Delivery.statusOut (d : Delivery) : DeliveryStatusOut :=
  ⟨d.id, d.endpointId, d.status, d.attemptCount⟩

def DeliveryAttempt.out (a : DeliveryAttempt) : AttemptOut :=
  ⟨a.attemptNumber, a.latencyMs, a.httpStatus, a.errorClass, a.responseSnippet⟩

def Response.ofExcept {α : Type} (f : α → Response) : Except ApiError α → Response
  | .ok a => f a
  | .error e => .error e

/-! Selects that name the tenant -/

/-- `_get_owned` of the endpoint routes. -/
def ownedEndpoint (db : Db) (tenantId endpointId : Uuid) : Option Endpoint :=
  db.endpoints.find? (fun e => e.id = endpointId ∧ e.tenantId = tenantId)

def ownedEvent (db : Db) (tenantId eventId : Uuid) : Option Event :=
  db.events.find? (fun v => v.id = eventId ∧ v.tenantId = tenantId)

def ownedDelivery (db : Db) (tenantId deliveryId : Uuid) : Option Delivery :=
  db.deliveries.find? (fun d => d.id = deliveryId ∧
    d.endpointId ∈ db.tenantEndpointIds tenantId)

/-- `_get_owned` of the diagnosis routes. -/
def ownedDiagnosis (db : Db) (tenantId diagnosisId : Uuid) : Option Diagnosis :=
  db.diagnoses.find? (fun g => g.id = diagnosisId ∧
    g.endpointId ∈ db.tenantEndpointIds tenantId)

/-- The owned ids, or the one that the query names if it is among them. -/
def narrow (db : Db) (tenantId : Uuid) : Option Uuid → Except ApiError (List Uuid)
  | none => .ok (db.tenantEndpointIds tenantId)
  | some endpointId =>
    if endpointId ∈ db.tenantEndpointIds tenantId then .ok [endpointId]
    else .error (notFound "endpoint")

/-! Endpoints -/

section Handlers

variable (orders : Orders) (draws : Draws) (tenantId : Uuid) (s : Store)

def createEndpoint (url : String) (ordering : Ordering) (eventTypes : List String) :
    Store × Response :=
  let e : Endpoint := {
    id := draws.fresh 0
    tenantId := tenantId
    url := url
    signingSecret := draws.secret
    ordering := ordering
    eventTypes := eventTypes }
  ({ s with db := { s.db with endpoints := s.db.endpoints ++ [e] } },
    .endpointCreated (Endpoint.out e) e.signingSecret)

def listEndpoints : Response :=
  .endpoints ((orders.endpoints (s.db.endpoints.filter (fun e => e.tenantId = tenantId))).map
    Endpoint.out)

/-- The handlers of one endpoint begin with `_get_owned`. -/
def onEndpoint (endpointId : Uuid) (f : Endpoint → Store × Response) : Store × Response :=
  match ownedEndpoint s.db tenantId endpointId with
  | none => (s, .error (notFound "endpoint"))
  | some e => f e

def getEndpoint (endpointId : Uuid) : Store × Response :=
  onEndpoint tenantId s endpointId (fun e => (s, .endpoint (Endpoint.out e)))

def patchEndpoint (endpointId : Uuid) (url : Option String) (status : Option EndpointStatus)
    (eventTypes : Option (List String)) : Store × Response :=
  onEndpoint tenantId s endpointId (fun e =>
    ({ s with db := { s.db with
        endpoints := Table.update Endpoint.id s.db.endpoints e.id
          (fun row => World.patched row url status eventTypes) } },
      .endpoint (Endpoint.out (World.patched e url status eventTypes))))

def getBreaker (endpointId : Uuid) : Store × Response :=
  onEndpoint tenantId s endpointId (fun _ => (s, .breaker (Breaker.out (s.breakers endpointId))))

def resetBreaker (endpointId : Uuid) : Store × Response :=
  onEndpoint tenantId s endpointId (fun _ => (s.resetBreaker endpointId, .noContent))

/-- DELETE, with the rows that the foreign keys cascade to. -/
def deleted (db : Db) (endpointId : Uuid) : Db :=
  let deliveries := (db.deliveries.filter (fun d => d.endpointId = endpointId)).map Delivery.id
  let diagnoses := (db.diagnoses.filter (fun g => g.endpointId = endpointId)).map Diagnosis.id
  { db with
    endpoints := db.endpoints.filter (fun e => e.id ≠ endpointId)
    deliveries := db.deliveries.filter (fun d => d.endpointId ≠ endpointId)
    attempts := db.attempts.filter (fun a => a.deliveryId ∉ deliveries)
    diagnoses := db.diagnoses.filter (fun g => g.endpointId ≠ endpointId)
    actions :=
      db.actions.filter (fun a => a.endpointId ≠ endpointId ∧ a.diagnosisId ∉ diagnoses) }

def deleteEndpoint (endpointId : Uuid) : Store × Response :=
  onEndpoint tenantId s endpointId (fun e => ({ s with db := deleted s.db e.id }, .noContent))

/-! Events and deliveries -/

def ingestEvent (streamShards : Nat) (body : EventCreate) : Store × Response :=
  let result := Ingest.served streamShards draws.fresh s tenantId body
  (result.1, .accepted result.2)

def getEvent (eventId : Uuid) : Response :=
  match ownedEvent s.db tenantId eventId with
  | none => .error (notFound "event")
  | some v => .event ⟨v.id, v.eventType, v.payload, v.idempotencyKey,
      (s.db.deliveries.filter (fun d => d.eventId = v.id)).map Delivery.statusOut⟩

def deliveryStatusOf : String → Option DeliveryStatus
  | "pending" => some .pending
  | "delivering" => some .delivering
  | "delivered" => some .delivered
  | "failed" => some .failed
  | "dead" => some .dead
  | _ => none

def invalidStatus : ApiError := ⟨422, "validation_error",
  "status must be one of ['dead', 'delivered', 'delivering', 'failed', 'pending']"⟩

def page {α : Type} (limit offset : Nat) (rows : List α) : List α :=
  (rows.drop offset).take limit

def selectDeliveries (endpointId : Option Uuid) (status : Option DeliveryStatus)
    (limit offset : Nat) : Response :=
  Response.ofExcept (fun owned => .deliveries (page limit offset (orders.created
    (s.db.deliveries.filter (fun d => d.endpointId ∈ owned ∧ ∀ t ∈ status, d.status = t)))))
    (narrow s.db tenantId endpointId)

def listDeliveries (endpointId : Option Uuid) (status : Option String) (limit offset : Nat) :
    Response :=
  match status with
  | none => selectDeliveries orders tenantId s endpointId none limit offset
  | some text =>
    match deliveryStatusOf text with
    | none => .error invalidStatus
    | some t => selectDeliveries orders tenantId s endpointId (some t) limit offset

def listAttempts (deliveryId : Uuid) : Response :=
  match ownedDelivery s.db tenantId deliveryId with
  | none => .error (notFound "delivery")
  | some _ =>
    .attempts (((s.db.attempts.filter (fun a => a.deliveryId = deliveryId)).insertionSort
      (fun a b => a.attemptNumber ≤ b.attemptNumber)).map DeliveryAttempt.out)

def listDlq (endpointId : Option Uuid) (limit offset : Nat) : Response :=
  Response.ofExcept (fun owned => .deliveries (page limit offset (orders.updated
    (s.db.deliveries.filter (fun d => d.endpointId ∈ owned ∧ d.status = .dead)))))
    (narrow s.db tenantId endpointId)

def replayDlq (streamShards : Nat) (body : ReplayRequest) : Store × Response :=
  let result := Replay.served streamShards s tenantId body
  (result.1, Response.ofExcept .replayed result.2)

/-! Diagnoses -/

def diagnosisStatusOf : String → Option DiagnosisStatus
  | "open" => some .opened
  | "acknowledged" => some .acknowledged
  | "resolved" => some .resolved
  | _ => none

def selectDiagnoses (owned : List Uuid) (status : Option DiagnosisStatus) (limit : Nat) :
    Response :=
  .diagnoses ((orders.diagnoses (s.db.diagnoses.filter
    (fun g => g.endpointId ∈ owned ∧ ∀ t ∈ status, g.status = t))).take limit)

def listDiagnoses (endpointId : Option Uuid) (status : Option String) (limit : Nat) : Response :=
  Response.ofExcept (fun owned =>
    match status with
    | none => selectDiagnoses orders s owned none limit
    | some text =>
      match diagnosisStatusOf text with
      | none => .error ⟨422, "validation_error", "invalid status"⟩
      | some t => selectDiagnoses orders s owned (some t) limit)
    (narrow s.db tenantId endpointId)

/-- The handlers of one diagnosis begin with `_get_owned`. -/
def onDiagnosis (diagnosisId : Uuid) (f : Diagnosis → Store × Response) : Store × Response :=
  match ownedDiagnosis s.db tenantId diagnosisId with
  | none => (s, .error (notFound "diagnosis"))
  | some g => f g

def getDiagnosis (diagnosisId : Uuid) : Store × Response :=
  onDiagnosis tenantId s diagnosisId (fun g => (s, .diagnosis g))

def acknowledge (diagnosisId : Uuid) : Store × Response :=
  onDiagnosis tenantId s diagnosisId (fun g =>
    ({ s with db := { s.db with
        diagnoses := Table.update Diagnosis.id s.db.diagnoses g.id
          (fun row => { row with status := .acknowledged }) } },
      .diagnosis { g with status := .acknowledged }))

def listActions (diagnosisId : Uuid) : Store × Response :=
  onDiagnosis tenantId s diagnosisId (fun _ =>
    (s, .actions (orders.actions (s.db.actions.filter (fun a => a.diagnosisId = diagnosisId)))))

def approveAction (streamShards : Nat) (actionId : Uuid) : Store × Response :=
  let result := Approve.served streamShards draws.clock s tenantId actionId
  (result.1, Response.ofExcept .action result.2)

def rejectAction (actionId : Uuid) : Store × Response :=
  let result := Reject.served draws.clock s tenantId actionId
  (result.1, Response.ofExcept .action result.2)

/-- The router. -/
def serve (streamShards : Nat) : ApiRequest → Store × Response
  | .createEndpoint url ordering types => createEndpoint draws tenantId s url ordering types
  | .listEndpoints => (s, listEndpoints orders tenantId s)
  | .getEndpoint endpointId => getEndpoint tenantId s endpointId
  | .patchEndpoint endpointId url status types =>
    patchEndpoint tenantId s endpointId url status types
  | .getBreaker endpointId => getBreaker tenantId s endpointId
  | .resetBreaker endpointId => resetBreaker tenantId s endpointId
  | .deleteEndpoint endpointId => deleteEndpoint tenantId s endpointId
  | .ingest body => ingestEvent draws tenantId s streamShards body
  | .getEvent eventId => (s, getEvent tenantId s eventId)
  | .listDeliveries endpointId status limit offset =>
    (s, listDeliveries orders tenantId s endpointId status limit offset)
  | .listAttempts deliveryId => (s, listAttempts tenantId s deliveryId)
  | .listDlq endpointId limit offset => (s, listDlq orders tenantId s endpointId limit offset)
  | .replay body => replayDlq tenantId s streamShards body
  | .listDiagnoses endpointId status limit =>
    (s, listDiagnoses orders tenantId s endpointId status limit)
  | .getDiagnosis diagnosisId => getDiagnosis tenantId s diagnosisId
  | .acknowledge diagnosisId => acknowledge tenantId s diagnosisId
  | .listActions diagnosisId => listActions orders tenantId s diagnosisId
  | .approve actionId => approveAction draws tenantId s streamShards actionId
  | .reject actionId => rejectAction draws tenantId s actionId

end Handlers

end Relay.Api
