import Relay.Api.Commands

/-!
# Replay of dead deliveries

`POST /v1/dlq/replay` as a program counter, and as the function that it computes
when nothing else runs.
-/

namespace Relay.Api

open Enqueue RetryQueue

structure ReplayRequest where
  endpointId : Uuid
  deliveryIds : Option (List Uuid)
  deriving DecidableEq

inductive ReplayPc where
  | owned
  | loadOrdering
  | select (ordering : Ordering)
  | commit (ordering : Ordering) (rows : List Delivery)
  | reset (ordering : Ordering) (rows : List Delivery)
  | requeue (replayed : List Uuid) (commands : List Command)
  | done (result : Except ApiError (List Uuid))

structure Replay where
  tenantId : Uuid
  body : ReplayRequest
  pc : ReplayPc

namespace Replay

def start (tenantId : Uuid) (body : ReplayRequest) : Replay := ⟨tenantId, body, .owned⟩

/-- The dead rows of the endpoint; None and the empty list of ids do not filter. -/
def selected (db : Db) (body : ReplayRequest) : List Delivery :=
  match body.deliveryIds with
  | none => db.dead body.endpointId
  | some [] => db.dead body.endpointId
  | some ids => (db.dead body.endpointId).filter (fun d => d.id ∈ ids)

theorem selected_dead {db : Db} {body : ReplayRequest} {d : Delivery}
    (h : d ∈ selected db body) :
    d ∈ db.deliveries ∧ d.endpointId = body.endpointId ∧ d.status = .dead := by
  have dead : d ∈ db.dead body.endpointId := by
    unfold selected at h
    split at h
    · exact h
    · exact h
    · exact List.mem_of_mem_filter h
  simpa [Db.dead] using dead

def memberOf (streamShards : Nat) (d : Delivery) : Member :=
  encodeMember streamShards d.id d.eventId d.endpointId

/-- ZREM, RPUSH for an ordered endpoint, XADD. -/
def commandsOf (streamShards : Nat) (ordering : Ordering) (d : Delivery) : List Command :=
  .zrem (memberOf streamShards d) :: Command.enqueueInOrder (ordering = .ordered) d

def commands (streamShards : Nat) (ordering : Ordering) (rows : List Delivery) : List Command :=
  rows.flatMap (commandsOf streamShards ordering)

def Present (db : Db) (rows : List Delivery) : Prop := ∀ d ∈ rows, (db.delivery d.id).isSome

instance (db : Db) (rows : List Delivery) : Decidable (Present db rows) :=
  inferInstanceAs (Decidable (∀ d ∈ rows, _))

/-- One await of the request; a call that can only raise has no step. -/
def step (streamShards : Nat) (s : Store) (r : Replay) : Option (Store × Replay) :=
  match r.pc with
  | .owned =>
    if r.body.endpointId ∈ s.db.tenantEndpointIds r.tenantId then
      some (s, { r with pc := .loadOrdering })
    else some (s, { r with pc := .done (.error (notFound "endpoint")) })
  | .loadOrdering =>
    match s.db.endpoint r.body.endpointId with
    | none => none
    | some e => some (s, { r with pc := .select e.ordering })
  | .select ordering =>
    some (s, { r with pc := .commit ordering (selected s.db r.body) })
  | .commit ordering rows =>
    if Present s.db rows then
      some (commitRequeued s rows,
        { r with pc := if rows = [] then .done (.ok []) else .reset ordering rows })
    else none
  | .reset ordering rows =>
    some (s.resetBreaker r.body.endpointId,
      { r with
        pc := .requeue (rows.map Delivery.id) (commands streamShards ordering rows) })
  | .requeue replayed [] => some (s, { r with pc := .done (.ok replayed) })
  | .requeue replayed (c :: rest) =>
    some (c.exec streamShards .replay s, { r with pc := .requeue replayed rest })
  | .done _ => none

end Replay

end Relay.Api
