import Relay.Api.Diagnoses
import Relay.Api.Dlq
import Relay.Api.Events
import Relay.Lib.Transition

/-!
# Requests that run on their own

What ingestion, replay, approval and rejection make of the store when nothing else
runs between their awaits, as functions, and that their steps compute these.
-/

namespace Relay.Api

open Transition

def Replay.alone (streamShards : Nat) (p : Store × Replay) : Option (Store × Replay) :=
  Replay.step streamShards p.1 p.2

def Approve.alone (streamShards : Nat) (clock : ℚ) (p : Store × Approve) :
    Option (Store × Approve) := Approve.step streamShards clock p.1 p.2

def Reject.alone (clock : ℚ) (p : Store × Reject) : Option (Store × Reject) :=
  Reject.step clock p.1 p.2

def Ingest.alone (streamShards : Nat) (ids : List Uuid) (p : Store × Ingest) :
    Option (Store × Ingest) := Ingest.step streamShards ids p.1 p.2

theorem owned {s : Store} {e : Endpoint} (endpoint : s.db.endpoint e.id = some e) :
    e.id ∈ s.db.tenantEndpointIds e.tenantId := by
  refine List.mem_map.mpr ⟨e, List.mem_filter.mpr ⟨Table.get_mem endpoint, ?_⟩, rfl⟩
  simp

/-! Replay -/

/-- What a replay of these rows makes of the store. -/
def Replay.requeueRows (streamShards : Nat) (s : Store) (e : Endpoint) (rows : List Delivery) :
    Store :=
  if rows = [] then commitRequeued s rows
  else execAll streamShards .replay ((commitRequeued s rows).resetBreaker e.id)
    (commands streamShards e.ordering rows)

/-- What `replay` of an endpoint makes of the store. -/
def Replay.result (streamShards : Nat) (s : Store) (e : Endpoint) : Store :=
  let rows := s.db.dead e.id
  if rows = [] then commitRequeued s rows
  else execAll streamShards .replay ((commitRequeued s rows).resetBreaker e.id)
    (commands streamShards e.ordering rows)

/-- `scalar_one` of a row that is not there. -/
def internalError : ApiError := ⟨500, "internal", ""⟩

def Replay.served (streamShards : Nat) (s : Store) (tenantId : Uuid) (body : ReplayRequest) :
    Store × Except ApiError (List Uuid) :=
  if body.endpointId ∈ s.db.tenantEndpointIds tenantId then
    match s.db.endpoint body.endpointId with
    | none => (s, .error internalError)
    | some e =>
      (Replay.requeueRows streamShards s e (selected s.db body),
        .ok ((selected s.db body).map Delivery.id))
  else (s, .error (notFound "endpoint"))

theorem dead_present (s : Store) (endpointId : Uuid) :
    ∀ d ∈ s.db.dead endpointId, (s.db.delivery d.id).isSome :=
  fun _ listed => Db.delivery_isSome (List.mem_of_mem_filter listed)

theorem Replay.ends_requeue (streamShards : Nat) (s : Store) (tenantId : Uuid)
    (body : ReplayRequest) (replayed : List Uuid) (commands : List Command) :
    Ends (Replay.alone streamShards) (s, ⟨tenantId, body, .requeue replayed commands⟩)
      (execAll streamShards .replay s commands, ⟨tenantId, body, .done (.ok replayed)⟩) := by
  induction commands generalizing s with
  | nil => exact .step rfl (.here rfl)
  | cons c rest ih => exact .step rfl (ih (c.exec streamShards .replay s))

/-- The steps of a replay compute the function; the endpoint of an owned id exists. -/
theorem Replay.ends_served (streamShards : Nat) (s : Store) (tenantId : Uuid)
    (body : ReplayRequest)
    (present : body.endpointId ∈ s.db.tenantEndpointIds tenantId →
      (s.db.endpoint body.endpointId).isSome = true) :
    Ends (Replay.alone streamShards) (s, Replay.start tenantId body)
      ((served streamShards s tenantId body).1,
        ⟨tenantId, body, .done (served streamShards s tenantId body).2⟩) := by
  by_cases owns : body.endpointId ∈ s.db.tenantEndpointIds tenantId
  · obtain ⟨e, found⟩ := Option.isSome_iff_exists.mp (present owns)
    have key : e.id = body.endpointId := Db.endpoint_id found
    have rows : Replay.Present s.db (selected s.db body) := fun d listed =>
      Db.delivery_isSome (selected_dead listed).1
    have result : served streamShards s tenantId body =
        (requeueRows streamShards s e (selected s.db body),
          .ok ((selected s.db body).map Delivery.id)) := by
      simp only [served, if_pos owns, found]
    rw [result]
    have passes : Replay.alone streamShards (s, Replay.start tenantId body) =
        some (s, ⟨tenantId, body, .loadOrdering⟩) := by
      unfold Replay.alone Replay.start Replay.step
      exact if_pos owns
    refine .step passes ?_
    refine .step (t := (s, ⟨tenantId, body, .select e.ordering⟩)) ?_ ?_
    · simp only [Replay.alone, Replay.step, found]
    refine .step (t := (s, ⟨tenantId, body, .commit e.ordering (selected s.db body)⟩)) rfl ?_
    unfold requeueRows
    by_cases empty : selected s.db body = []
    · rw [empty] at rows ⊢
      refine .step (t := (_, ⟨tenantId, body, .done (.ok [])⟩)) ?_ (.here rfl)
      simp only [Replay.alone, Replay.step, if_pos rows]
      rfl
    · refine .step (t := (commitRequeued s (selected s.db body),
        ⟨tenantId, body, .reset e.ordering (selected s.db body)⟩)) ?_ ?_
      · simp only [Replay.alone, Replay.step, if_pos rows, if_neg empty]
      · simp only [if_neg empty, key]
        exact .step rfl (Replay.ends_requeue _ _ _ _ _ _)
  · have result : served streamShards s tenantId body = (s, .error (notFound "endpoint")) :=
      if_neg owns
    rw [result]
    exact .step (if_neg owns) (.here rfl)

/-! Approval -/

/-- What the approval of a pause makes of the store. -/
def Approve.paused (s : Store) (e : Endpoint) (a : AgentAction) (clock : ℚ) : Store :=
  decide (if e.status = .paused then s else s.setEndpointStatus e.id .paused) a clock

/-- What the approval of a replay makes of it. -/
def Approve.result (streamShards : Nat) (clock : ℚ) (s : Store) (e : Endpoint) (a : AgentAction) :
    Store :=
  let rows := s.db.dead e.id
  let committed := decide (commitRequeued s rows) a clock
  if rows = [] then committed
  else execAll streamShards .approve (committed.resetBreaker e.id) (commands rows)

/-- The action that the select of a request returns. -/
def ownedAction (db : Db) (tenantId actionId : Uuid) : Option AgentAction :=
  (db.action actionId).filter (fun a => a.endpointId ∈ db.tenantEndpointIds tenantId)

def Approve.served (streamShards : Nat) (clock : ℚ) (s : Store) (tenantId actionId : Uuid) :
    Store × Except ApiError AgentAction :=
  match ownedAction s.db tenantId actionId with
  | none => (s, .error (notFound "action"))
  | some a =>
    if a.status = .pending then
      match s.db.endpoint a.endpointId with
      | none => (s, .error internalError)
      | some e =>
        (match a.action with
          | .pauseEndpoint => Approve.paused s e a clock
          | .replayDlq => Approve.result streamShards clock s e a,
        .ok (approved a clock))
    else (s, .error (alreadyDecided a.status))

theorem Approve.ends_requeue (streamShards : Nat) (clock : ℚ) (s : Store)
    (tenantId actionId : Uuid) (action : AgentAction) (commands : List Command) :
    Ends (Approve.alone streamShards clock) (s, ⟨tenantId, actionId, .requeue action commands⟩)
      (execAll streamShards .approve s commands, ⟨tenantId, actionId, .done (.ok action)⟩) := by
  induction commands generalizing s with
  | nil => exact .step rfl (.here rfl)
  | cons c rest ih => exact .step rfl (ih (c.exec streamShards .approve s))

theorem Approve.ends_select (streamShards : Nat) (clock : ℚ) (s : Store)
    (tenantId actionId : Uuid) (a : AgentAction) (e : Endpoint) :
    Ends (Approve.alone streamShards clock) (s, ⟨tenantId, actionId, .selectDead a e⟩)
      (Approve.result streamShards clock s e a,
        ⟨tenantId, actionId, .done (.ok (approved a clock))⟩) := by
  have present : Approve.Present s.db (s.db.dead e.id) := dead_present s e.id
  refine .step (t := (s, ⟨tenantId, actionId, .commitReplay a e (s.db.dead e.id) clock⟩)) rfl ?_
  unfold Approve.result
  by_cases empty : s.db.dead e.id = []
  · rw [empty] at present ⊢
    refine .step (t := (_, ⟨tenantId, actionId, .done (.ok (approved a clock))⟩)) ?_ (.here rfl)
    simp only [Approve.alone, Approve.step, if_pos present]
    rfl
  · refine .step (t := (decide (commitRequeued s (s.db.dead e.id)) a clock,
      ⟨tenantId, actionId, .reset (approved a clock) e (s.db.dead e.id)⟩)) ?_ ?_
    · simp only [Approve.alone, Approve.step, if_pos present, if_neg empty]
    · simp only [if_neg empty]
      exact .step rfl (Approve.ends_requeue _ _ _ _ _ _ _)

/-- The steps of an approval compute the function; the endpoint of an owned action exists. -/
theorem Approve.ends_served (streamShards : Nat) (clock : ℚ) (s : Store)
    (tenantId actionId : Uuid)
    (present : ∀ a ∈ ownedAction s.db tenantId actionId,
      (s.db.endpoint a.endpointId).isSome = true) :
    Ends (Approve.alone streamShards clock) (s, Approve.start tenantId actionId)
      ((served streamShards clock s tenantId actionId).1,
        ⟨tenantId, actionId, .done (served streamShards clock s tenantId actionId).2⟩) := by
  refine .step (t := (s, ⟨tenantId, actionId,
    .loadAction (s.db.tenantEndpointIds tenantId)⟩)) rfl ?_
  have loads : Approve.alone streamShards clock
      (s, ⟨tenantId, actionId, .loadAction (s.db.tenantEndpointIds tenantId)⟩) =
      match ownedAction s.db tenantId actionId with
      | none => some (s, ⟨tenantId, actionId, .done (.error (notFound "action"))⟩)
      | some a =>
        if a.status = .pending then some (s, ⟨tenantId, actionId, .loadEndpoint a⟩)
        else some (s, ⟨tenantId, actionId, .done (.error (alreadyDecided a.status))⟩) := rfl
  unfold served
  cases selects : ownedAction s.db tenantId actionId with
  | none =>
    rw [selects] at loads
    exact .step loads (.here rfl)
  | some a =>
    rw [selects] at loads
    by_cases pending : a.status = .pending
    · obtain ⟨e, found⟩ := Option.isSome_iff_exists.mp (present a selects)
      simp only [if_pos pending] at loads
      simp only [if_pos pending, found]
      refine .step loads ?_
      cases kind : a.action with
      | pauseEndpoint =>
        refine .step (t := (s, ⟨tenantId, actionId, .commitPause a e clock⟩)) ?_ ?_
        · simp only [Approve.alone, Approve.step, found, kind]
        · exact .step rfl (.here rfl)
      | replayDlq =>
        refine .step (t := (s, ⟨tenantId, actionId, .selectDead a e⟩)) ?_ ?_
        · simp only [Approve.alone, Approve.step, found, kind]
        · exact Approve.ends_select streamShards clock s tenantId actionId a e
    · simp only [if_neg pending] at loads
      simp only [if_neg pending]
      exact .step loads (.here rfl)

/-! Rejection -/

def Reject.served (clock : ℚ) (s : Store) (tenantId actionId : Uuid) :
    Store × Except ApiError AgentAction :=
  match ownedAction s.db tenantId actionId with
  | none => (s, .error (notFound "action"))
  | some a =>
    if a.status = .pending then (decide s a clock, .ok (rejected a clock))
    else (s, .error (Approve.alreadyDecided a.status))

theorem Reject.ends_served (clock : ℚ) (s : Store) (tenantId actionId : Uuid) :
    Ends (Reject.alone clock) (s, Reject.start tenantId actionId)
      ((served clock s tenantId actionId).1,
        ⟨tenantId, actionId, .done (served clock s tenantId actionId).2⟩) := by
  refine .step (t := (s, ⟨tenantId, actionId,
    .loadAction (s.db.tenantEndpointIds tenantId)⟩)) rfl ?_
  have loads : Reject.alone clock
      (s, ⟨tenantId, actionId, .loadAction (s.db.tenantEndpointIds tenantId)⟩) =
      match ownedAction s.db tenantId actionId with
      | none => some (s, ⟨tenantId, actionId, .done (.error (notFound "action"))⟩)
      | some a =>
        if a.status = .pending then some (s, ⟨tenantId, actionId, .commit a clock⟩)
        else some (s, ⟨tenantId, actionId,
          .done (.error (Approve.alreadyDecided a.status))⟩) := rfl
  unfold served
  cases selects : ownedAction s.db tenantId actionId with
  | none =>
    rw [selects] at loads
    exact .step loads (.here rfl)
  | some a =>
    rw [selects] at loads
    by_cases pending : a.status = .pending
    · simp only [if_pos pending] at loads ⊢
      exact .step loads (.step rfl (.here rfl))
    · simp only [if_neg pending] at loads ⊢
      exact .step loads (.here rfl)

/-! Ingestion -/

/-- The ids that a request draws: the event's, then one for every delivery. -/
def drawn (fresh : Nat → Uuid) (n : Nat) : List Uuid :=
  fresh 0 :: (List.range n).map (fun i => fresh (i + 1))

def Ingest.served (streamShards : Nat) (fresh : Nat → Uuid) (s : Store) (tenantId : Uuid)
    (body : EventCreate) : Store × Uuid :=
  match body.idempotencyKey.bind (s.db.existingByIdempotencyKey tenantId) with
  | some existing => (s, existing.id)
  | none =>
    let endpoints := fanOut s.db tenantId body.eventType
    let ids := drawn fresh endpoints.length
    let event : Event := ⟨fresh 0, tenantId, body.eventType, body.payload, body.idempotencyKey⟩
    let deliveries := newDeliveries (fresh 0) ids.tail endpoints
    let inserted := { s with db := reserve s.db tenantId body.idempotencyKey
                             issued := ids ++ s.issued }
    (execAll streamShards .ingest (commitEvent inserted event deliveries)
      (commands endpoints deliveries), fresh 0)

theorem Ingest.ends_enqueue (streamShards : Nat) (ids : List Uuid) (s : Store) (tenantId : Uuid)
    (body : EventCreate) (eventId : Uuid) (commands : List Command) :
    Ends (Ingest.alone streamShards ids) (s, ⟨tenantId, body, .enqueue eventId commands⟩)
      (execAll streamShards .ingest s commands, ⟨tenantId, body, .accepted eventId⟩) := by
  induction commands generalizing s with
  | nil => exact .step rfl (.here rfl)
  | cons c rest ih => exact .step rfl (ih (c.exec streamShards .ingest s))

/-- The steps of an ingestion compute the function: its ids are fresh, and no open
transaction holds its key. -/
theorem Ingest.ends_served (streamShards : Nat) (fresh : Nat → Uuid) (s : Store)
    (tenantId : Uuid) (body : EventCreate)
    (unused : Fresh s (drawn fresh (fanOut s.db tenantId body.eventType).length))
    (free : ¬ keyReserved s.db tenantId body.idempotencyKey) :
    Ends (Ingest.alone streamShards
        (drawn fresh (fanOut s.db tenantId body.eventType).length)) (s, Ingest.start tenantId body)
      ((served streamShards fresh s tenantId body).1,
        ⟨tenantId, body, .accepted (served streamShards fresh s tenantId body).2⟩) := by
  have query (unknown : body.idempotencyKey.bind (s.db.existingByIdempotencyKey tenantId) = none) :
      Ends (Ingest.alone streamShards
        (drawn fresh (fanOut s.db tenantId body.eventType).length))
        (s, ⟨tenantId, body, .queryEndpoints⟩)
        ((served streamShards fresh s tenantId body).1,
          ⟨tenantId, body, .accepted (served streamShards fresh s tenantId body).2⟩) := by
    have untaken : keyTaken s.db tenantId body.idempotencyKey = false := by
      cases key : body.idempotencyKey with
      | none => rfl
      | some k =>
        rw [key] at unknown
        exact congrArg Option.isSome unknown
    have length : (drawn fresh (fanOut s.db tenantId body.eventType).length).tail.length =
        (fanOut s.db tenantId body.eventType).length := by simp [drawn]
    have keys : ForeignKeysHold (reserve s.db tenantId body.idempotencyKey)
        (newDeliveries (fresh 0) (drawn fresh (fanOut s.db tenantId body.eventType).length).tail
          (fanOut s.db tenantId body.eventType)) := by
      intro d listed
      obtain ⟨_, _, e, listed', same⟩ := mem_newDeliveries listed
      have row : e ∈ s.db.endpoints := List.mem_of_mem_filter (List.mem_of_mem_filter listed')
      have there : (reserve s.db tenantId body.idempotencyKey).endpoint d.endpointId =
          s.db.endpoint e.id := by
        rw [same]
        unfold reserve
        split <;> rfl
      rw [there]
      exact Db.endpoint_isSome row
    unfold served
    rw [unknown]
    refine .step (t := ({ s with
        db := reserve s.db tenantId body.idempotencyKey
        issued := drawn fresh (fanOut s.db tenantId body.eventType).length ++ s.issued },
      ⟨tenantId, body, .commit ⟨fresh 0, tenantId, body.eventType, body.payload,
        body.idempotencyKey⟩ (fanOut s.db tenantId body.eventType) (newDeliveries (fresh 0)
          (drawn fresh (fanOut s.db tenantId body.eventType).length).tail
          (fanOut s.db tenantId body.eventType))⟩)) ?_ ?_
    · simp only [Ingest.alone, step, untaken, free, if_false, Bool.false_eq_true]
      exact if_pos ⟨unused, length⟩
    · exact .step (if_pos keys) (Ingest.ends_enqueue _ _ _ _ _ _ _)
  unfold start
  cases key : body.idempotencyKey with
  | none =>
    exact query (by rw [key]; rfl)
  | some k =>
    cases known : s.db.existingByIdempotencyKey tenantId k with
    | none =>
      refine .step (t := (s, ⟨tenantId, body, .queryEndpoints⟩)) ?_
        (query (by rw [key]; exact known))
      simp only [Ingest.alone, step, key, Option.isSome_some, if_true, Option.bind_some, known]
    | some existing =>
      have result : served streamShards fresh s tenantId body = (s, existing.id) := by
        unfold served
        rw [key, Option.bind_some, known]
      rw [result]
      refine .step ?_ (.here rfl)
      simp only [Ingest.alone, step, key, Option.isSome_some, if_true, Option.bind_some, known]

end Relay.Api
