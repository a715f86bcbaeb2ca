import Relay.Lib.Table
import Relay.Text

/-!
# Rows of the database

Status columns with a CHECK constraint are enumerations. `flush` is what a
session writes when it commits a changed object: the columns whose value
differs from the one that was loaded, and no others.
-/

namespace Relay

inductive Ordering where
  | ordered
  | unordered
  deriving DecidableEq, Repr

inductive EndpointStatus where
  | active
  | paused
  | disabled
  deriving DecidableEq, Repr

inductive DeliveryStatus where
  | pending
  | delivering
  | delivered
  | failed
  | dead
  deriving DecidableEq, Repr

inductive ActionKind where
  | pauseEndpoint
  | replayDlq
  deriving DecidableEq, Repr

inductive ActionStatus where
  | pending
  | approved
  | rejected
  deriving DecidableEq, Repr

inductive Confidence where
  | low
  | medium
  | high
  deriving DecidableEq, Repr

inductive DiagnosisStatus where
  | opened
  | acknowledged
  | resolved
  deriving DecidableEq, Repr

/-- The values of a JSONB column; a Python `str` with lone surrogates is ill-formed. -/
inductive Json where
  | null
  | bool (b : Bool)
  | num (q : ℚ)
  | str (text : String)
  | illFormed (text : PyStr)
  | arr (items : List Json)
  | obj (fields : List (String × Json))

namespace Json

mutual

/-- The strings and the keys inside. -/
def texts : Json → List PyStr
  | .str text => [PyStr.ofText text]
  | .illFormed text => [text]
  | .arr items => textsOfItems items
  | .obj fields => textsOfFields fields
  | .null | .bool _ | .num _ => []

def textsOfItems : List Json → List PyStr
  | [] => []
  | v :: rest => v.texts ++ textsOfItems rest

def textsOfFields : List (String × Json) → List PyStr
  | [] => []
  | (key, v) :: rest => PyStr.ofText key :: v.texts ++ textsOfFields rest

end

/-- A JSONB column takes the value. -/
def Storable (v : Json) : Prop := ∀ text ∈ v.texts, text.JsonStorable

instance (v : Json) : Decidable v.Storable := List.decidableBAll _ _

@[simp] theorem storable_str {text : String} : (str text).Storable ↔ nul ∉ text.toList := by
  rw [← PyStr.jsonStorable_ofText]
  exact List.forall_mem_singleton

@[simp] theorem storable_bool (b : Bool) : (bool b).Storable := List.forall_mem_nil _

theorem storable_arr {items : List Json} :
    (arr items).Storable ↔ ∀ v ∈ items, v.Storable := by
  change (∀ text ∈ textsOfItems items, text.JsonStorable) ↔ _
  induction items with
  | nil => simp [textsOfItems]
  | cons v rest ih =>
    rw [textsOfItems, List.forall_mem_append, ih, List.forall_mem_cons]
    exact Iff.rfl

theorem storable_obj {fields : List (String × Json)} :
    (obj fields).Storable ↔ ∀ f ∈ fields, nul ∉ f.1.toList ∧ f.2.Storable := by
  change (∀ text ∈ textsOfFields fields, text.JsonStorable) ↔ _
  induction fields with
  | nil => simp [textsOfFields]
  | cons f rest ih =>
    obtain ⟨key, v⟩ := f
    rw [textsOfFields, List.cons_append, List.forall_mem_cons, List.forall_mem_append, ih,
      List.forall_mem_cons, and_assoc, PyStr.jsonStorable_ofText]
    exact Iff.rfl

end Json

/-- NULL limits fall back to the settings. -/
structure Tenant where
  id : Uuid
  ratePerSec : Option Nat := none
  maxInflight : Option Nat := none

structure Endpoint where
  id : Uuid
  tenantId : Uuid
  url : String := ""
  signingSecret : String := ""
  ordering : Ordering := .unordered
  status : EndpointStatus := .active
  eventTypes : List String := []
  deriving DecidableEq

structure Event where
  id : Uuid
  tenantId : Uuid
  eventType : String
  payload : String
  idempotencyKey : Option String
  deriving DecidableEq

structure Delivery where
  id : Uuid
  eventId : Uuid
  endpointId : Uuid
  status : DeliveryStatus := .pending
  attemptCount : Nat := 0
  nextAttemptAt : Option ℚ := none
  deriving DecidableEq

structure Diagnosis where
  id : Uuid
  endpointId : Uuid
  triggeredBy : String
  rootCause : String
  confidence : Confidence
  evidence : List (String × Json)
  recommendation : String
  draftEmail : String
  status : DiagnosisStatus := .opened
  costUsd : ℚ := 0

structure AgentAction where
  id : Uuid
  diagnosisId : Uuid
  endpointId : Uuid
  action : ActionKind
  reason : String := ""
  status : ActionStatus := .pending
  decidedAt : Option ℚ := none
  deriving DecidableEq

structure DeliveryAttempt where
  deliveryId : Uuid
  attemptNumber : Nat
  latencyMs : Nat
  httpStatus : Option Nat
  errorClass : Option String
  responseSnippet : Option String
  deriving DecidableEq

/-- `delivered` and `dead`: the worker drops entries of such rows. -/
def DeliveryStatus.Settled (s : DeliveryStatus) : Prop := s = .delivered ∨ s = .dead

instance (s : DeliveryStatus) : Decidable s.Settled := inferInstanceAs (Decidable (_ ∨ _))

@[simp] theorem settled_delivered : DeliveryStatus.delivered.Settled := Or.inl rfl
@[simp] theorem settled_dead : DeliveryStatus.dead.Settled := Or.inr rfl
@[simp] theorem not_settled_pending : ¬ DeliveryStatus.pending.Settled := by decide
@[simp] theorem not_settled_delivering : ¬ DeliveryStatus.delivering.Settled := by decide
@[simp] theorem not_settled_failed : ¬ DeliveryStatus.failed.Settled := by decide

/-- UPDATE of the columns that changed between `loaded` and `current`. -/
def Delivery.flush (loaded current row : Delivery) : Delivery :=
  { row with
    status := if current.status = loaded.status then row.status else current.status
    attemptCount :=
      if current.attemptCount = loaded.attemptCount then row.attemptCount
      else current.attemptCount
    nextAttemptAt :=
      if current.nextAttemptAt = loaded.nextAttemptAt then row.nextAttemptAt
      else current.nextAttemptAt }

@[simp] theorem Delivery.flush_id (loaded current row : Delivery) :
    (loaded.flush current row).id = row.id := rfl

@[simp] theorem Delivery.flush_eventId (loaded current row : Delivery) :
    (loaded.flush current row).eventId = row.eventId := rfl

@[simp] theorem Delivery.flush_endpointId (loaded current row : Delivery) :
    (loaded.flush current row).endpointId = row.endpointId := rfl

theorem Delivery.flush_status (loaded current row : Delivery) :
    (loaded.flush current row).status =
      if current.status = loaded.status then row.status else current.status := rfl

/-- Flushing over the row that was loaded gives the session's values. -/
theorem Delivery.flush_loaded {loaded current : Delivery} (id : current.id = loaded.id)
    (event : current.eventId = loaded.eventId) (endpoint : current.endpointId = loaded.endpointId) :
    loaded.flush current loaded = current := by
  cases current
  cases loaded
  simp only at id event endpoint
  subst id event endpoint
  unfold Delivery.flush
  congr 1
  · split
    · exact Eq.symm ‹_›
    · rfl
  · split
    · exact Eq.symm ‹_›
    · rfl
  · split
    · exact Eq.symm ‹_›
    · rfl

/-- The tables. `reserved` holds the idempotency keys that open transactions
have inserted and not committed: a second insert of such a key waits. -/
structure Db where
  tenants : List Tenant := []
  endpoints : List Endpoint := []
  events : List Event := []
  deliveries : List Delivery := []
  attempts : List DeliveryAttempt := []
  diagnoses : List Diagnosis := []
  actions : List AgentAction := []
  reserved : List (Uuid × String) := []

namespace Db

def tenant (db : Db) (id : Uuid) : Option Tenant := Table.get Tenant.id db.tenants id

def endpoint (db : Db) (id : Uuid) : Option Endpoint := Table.get Endpoint.id db.endpoints id

def event (db : Db) (id : Uuid) : Option Event := Table.get Event.id db.events id

def delivery (db : Db) (id : Uuid) : Option Delivery := Table.get Delivery.id db.deliveries id

def diagnosis (db : Db) (id : Uuid) : Option Diagnosis := Table.get Diagnosis.id db.diagnoses id

def action (db : Db) (id : Uuid) : Option AgentAction := Table.get AgentAction.id db.actions id

/-- `select(Endpoint.id).where(Endpoint.tenant_id == tenant.id)`. -/
def tenantEndpointIds (db : Db) (tenantId : Uuid) : List Uuid :=
  (db.endpoints.filter (fun e => e.tenantId = tenantId)).map Endpoint.id

/-- The dead deliveries of an endpoint. -/
def dead (db : Db) (endpointId : Uuid) : List Delivery :=
  db.deliveries.filter (fun d => d.endpointId = endpointId ∧ d.status = .dead)

def existingByIdempotencyKey (db : Db) (tenantId : Uuid) (key : String) : Option Event :=
  db.events.find? (fun e => e.tenantId = tenantId ∧ e.idempotencyKey = some key)

/-- Commit of one changed delivery by its primary key. -/
def updateDelivery (db : Db) (loaded current : Delivery) : Db :=
  { db with deliveries := Table.update Delivery.id db.deliveries loaded.id (loaded.flush current) }

def setEndpointStatus (db : Db) (id : Uuid) (status : EndpointStatus) : Db :=
  { db with
    endpoints := Table.update Endpoint.id db.endpoints id (fun e => { e with status := status }) }

theorem delivery_updateDelivery (db : Db) (loaded current : Delivery) (id : Uuid) :
    (db.updateDelivery loaded current).delivery id =
      if id = loaded.id then (db.delivery id).map (loaded.flush current) else db.delivery id :=
  Table.get_update (fun _ => rfl)

theorem delivery_isSome {db : Db} {d : Delivery} (listed : d ∈ db.deliveries) :
    (db.delivery d.id).isSome = true :=
  Option.isSome_iff_exists.mpr (Table.get_isSome_of_mem listed)

theorem endpoint_isSome {db : Db} {e : Endpoint} (listed : e ∈ db.endpoints) :
    (db.endpoint e.id).isSome = true :=
  Option.isSome_iff_exists.mpr (Table.get_isSome_of_mem listed)

theorem delivery_id {db : Db} {id : Uuid} {d : Delivery} (h : db.delivery id = some d) :
    d.id = id := Table.get_key h

theorem endpoint_id {db : Db} {id : Uuid} {e : Endpoint} (h : db.endpoint id = some e) :
    e.id = id := Table.get_key h

end Db

end Relay
