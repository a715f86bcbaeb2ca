import Relay.Api.Commands

/-!
# Ingestion

`ingest_event` as a program counter. The session factory leaves autoflush on, so
the added event is inserted by the endpoint query: from then on the open
transaction holds the key in the unique index, a second insert of it waits for
the end of that transaction, and fails if it was committed. That failure is
raised by the query, outside the `try` around the commit.
-/

namespace Relay.Api

open Enqueue

structure EventCreate where
  eventType : String
  payload : String
  idempotencyKey : Option String
  deriving DecidableEq

/-- How a request ends without `EventAccepted`. -/
inductive Failure where
  | integrityError
  | assertionError
  | missingGreenlet
  | died
  deriving DecidableEq

inductive IngestPc where
  | lookup
  | queryEndpoints
  | commit (event : Event) (endpoints : List Endpoint) (deliveries : List Delivery)
  | rollback
  | enqueue (eventId : Uuid) (commands : List Command)
  | accepted (eventId : Uuid)
  | failed (reason : Failure)
  deriving DecidableEq

structure Ingest where
  tenantId : Uuid
  body : EventCreate
  pc : IngestPc
  deriving DecidableEq

namespace Ingest

/-- The lookup is skipped without a key. -/
def start (tenantId : Uuid) (body : EventCreate) : Ingest :=
  ⟨tenantId, body, if body.idempotencyKey.isSome then .lookup else .queryEndpoints⟩

/-- `not e.event_types or body.event_type in e.event_types`. -/
def Subscribed (e : Endpoint) (eventType : String) : Prop :=
  e.eventTypes = [] ∨ eventType ∈ e.eventTypes

instance (e : Endpoint) (eventType : String) : Decidable (Subscribed e eventType) :=
  inferInstanceAs (Decidable (_ ∨ _))

/-- The endpoints that the fan-out query and the filter after it leave. -/
def fanOut (db : Db) (tenantId : Uuid) (eventType : String) : List Endpoint :=
  (db.endpoints.filter (fun e => e.tenantId = tenantId ∧ e.status = .active)).filter
    (fun e => Subscribed e eventType)

def newDeliveries (eventId : Uuid) (ids : List Uuid) (endpoints : List Endpoint) :
    List Delivery :=
  List.zipWith (fun id (e : Endpoint) => { id := id, eventId := eventId, endpointId := e.id })
    ids endpoints

theorem map_id_newDeliveries {eventId : Uuid} {ids : List Uuid}
    {endpoints : List Endpoint} (drawn : ids.length = endpoints.length) :
    (newDeliveries eventId ids endpoints).map Delivery.id = ids := by
  unfold newDeliveries
  rw [List.map_zipWith]
  induction ids generalizing endpoints with
  | nil => rfl
  | cons id rest ih =>
    cases endpoints with
    | nil => simp at drawn
    | cons e tail => simp [ih (by simpa using drawn)]

theorem mem_newDeliveries {eventId : Uuid} {ids : List Uuid} {endpoints : List Endpoint}
    {d : Delivery} (listed : d ∈ newDeliveries eventId ids endpoints) :
    d.eventId = eventId ∧ d.status = .pending ∧ ∃ e ∈ endpoints, d.endpointId = e.id := by
  induction ids generalizing endpoints with
  | nil => simp [newDeliveries] at listed
  | cons id rest ih =>
    cases endpoints with
    | nil => simp [newDeliveries] at listed
    | cons e tail =>
      rcases List.mem_cons.mp listed with rfl | later
      · exact ⟨rfl, rfl, e, List.mem_cons_self, rfl⟩
      · obtain ⟨event, status, e', listed', same⟩ := ih later
        exact ⟨event, status, e', List.mem_cons_of_mem _ listed', same⟩

theorem attemptCount_newDeliveries {eventId : Uuid} {ids : List Uuid} {endpoints : List Endpoint}
    {d : Delivery} (listed : d ∈ newDeliveries eventId ids endpoints) : d.attemptCount = 0 := by
  unfold newDeliveries at listed
  rw [← List.map_uncurry_zip_eq_zipWith] at listed
  obtain ⟨_, _, rfl⟩ := List.mem_map.mp listed
  rfl

/-- `ordering_by_endpoint.get(endpoint_id) == "ordered"`. -/
def isOrdered (endpoints : List Endpoint) (endpointId : Uuid) : Bool :=
  match endpoints.find? (fun e => e.id = endpointId) with
  | none => false
  | some e => decide (e.ordering = .ordered)

def commands (endpoints : List Endpoint) (deliveries : List Delivery) : List Command :=
  deliveries.flatMap (fun d => Command.enqueueInOrder (isOrdered endpoints d.endpointId) d)

def keyReserved (db : Db) (tenantId : Uuid) : Option String → Prop
  | none => False
  | some key => (tenantId, key) ∈ db.reserved

instance (db : Db) (tenantId : Uuid) (key : Option String) :
    Decidable (keyReserved db tenantId key) :=
  match key with
  | none => isFalse not_false
  | some key => inferInstanceAs (Decidable ((tenantId, key) ∈ db.reserved))

def keyTaken (db : Db) (tenantId : Uuid) : Option String → Bool
  | none => false
  | some key => (db.existingByIdempotencyKey tenantId key).isSome

def reserve (db : Db) (tenantId : Uuid) : Option String → Db
  | none => db
  | some key => { db with reserved := (tenantId, key) :: db.reserved }

def unreserve (db : Db) (tenantId : Uuid) : Option String → Db
  | none => db
  | some key => { db with reserved := db.reserved.erase (tenantId, key) }

/-- Ids drawn by `uuid4`: distinct and never handed out before. -/
def Fresh (s : Store) (ids : List Uuid) : Prop := ids.Nodup ∧ ∀ id ∈ ids, id ∉ s.issued

-- the bounded quantifier must be decided along the list, not over all of `Uuid`
instance (s : Store) (ids : List Uuid) : Decidable (Fresh s ids) :=
  @instDecidableAnd _ _ inferInstance (List.decidableBAll (fun id => id ∉ s.issued) ids)

/-- The commit of the event with its deliveries; the reservation ends. -/
def commitEvent (s : Store) (event : Event) (deliveries : List Delivery) : Store :=
  { s with
    db := { unreserve s.db event.tenantId event.idempotencyKey with
      events := s.db.events ++ [event]
      deliveries := s.db.deliveries ++ deliveries } }

/-- Foreign keys of the new delivery rows. -/
def ForeignKeysHold (db : Db) (deliveries : List Delivery) : Prop :=
  ∀ d ∈ deliveries, (db.endpoint d.endpointId).isSome

instance (db : Db) (deliveries : List Delivery) : Decidable (ForeignKeysHold db deliveries) :=
  inferInstanceAs (Decidable (∀ d ∈ deliveries, _))

def abandon (s : Store) (r : Ingest) : Store :=
  { s with db := unreserve s.db r.tenantId r.body.idempotencyKey }

/-- One await of a request. `ids` are the random ids that the step draws: the
event's first, then one for every delivery. -/
def step (streamShards : Nat) (ids : List Uuid) (s : Store) (r : Ingest) :
    Option (Store × Ingest) :=
  match r.pc with
  | .lookup =>
    match r.body.idempotencyKey.bind (s.db.existingByIdempotencyKey r.tenantId) with
    | some existing => some (s, { r with pc := .accepted existing.id })
    | none => some (s, { r with pc := .queryEndpoints })
  | .queryEndpoints =>
    if keyTaken s.db r.tenantId r.body.idempotencyKey then
      some (s, { r with pc := .failed .integrityError })
    else if keyReserved s.db r.tenantId r.body.idempotencyKey then none
    else
      let endpoints := fanOut s.db r.tenantId r.body.eventType
      match ids with
      | [] => none
      | eventId :: deliveryIds =>
        if Fresh s ids ∧ deliveryIds.length = endpoints.length then
          some ({ s with
              db := reserve s.db r.tenantId r.body.idempotencyKey
              issued := ids ++ s.issued },
            { r with
              pc := .commit ⟨eventId, r.tenantId, r.body.eventType, r.body.payload,
                r.body.idempotencyKey⟩ endpoints (newDeliveries eventId deliveryIds endpoints) })
        else none
  | .commit event endpoints deliveries =>
    if ForeignKeysHold s.db deliveries then
      some (commitEvent s event deliveries,
        { r with pc := .enqueue event.id (commands endpoints deliveries) })
    else some (s, { r with pc := .rollback })
  | .rollback =>
    -- the rollback expires `tenant` too: `tenant.id` then wants a refresh outside any
    -- greenlet, so the second lookup is never sent
    some (abandon s r, { r with
      pc := .failed
        (if r.body.idempotencyKey.isSome then .missingGreenlet else .assertionError) })
  | .enqueue eventId [] => some (s, { r with pc := .accepted eventId })
  | .enqueue eventId (c :: rest) =>
    some (c.exec streamShards .ingest s, { r with pc := .enqueue eventId rest })
  | .accepted _ => none
  | .failed _ => none

/-- The process dies or the awaited call raises; an open transaction rolls back. -/
def fail (s : Store) (r : Ingest) : Option (Store × Ingest) :=
  match r.pc with
  | .commit _ _ _ | .rollback => some (abandon s r, { r with pc := .failed .died })
  | .accepted _ | .failed _ => none
  | _ => some (s, { r with pc := .failed .died })

end Ingest

end Relay.Api
