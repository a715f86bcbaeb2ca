import Relay.Api.Commands

/-!
# Decisions on an agent's action

`POST /v1/diagnoses/actions/{id}/approve` and `.../reject` as program counters.
-/

namespace Relay.Api

inductive ApprovePc where
  | owned
  | loadAction (owned : List Uuid)
  | loadEndpoint (action : AgentAction)
  | selectDead (action : AgentAction) (endpoint : Endpoint)
  | commitPause (action : AgentAction) (endpoint : Endpoint) (decidedAt : ℚ)
  | commitReplay (action : AgentAction) (endpoint : Endpoint) (rows : List Delivery)
      (decidedAt : ℚ)
  | reset (action : AgentAction) (endpoint : Endpoint) (rows : List Delivery)
  | requeue (action : AgentAction) (commands : List Command)
  | done (result : Except ApiError AgentAction)

structure Approve where
  tenantId : Uuid
  actionId : Uuid
  pc : ApprovePc

namespace Approve

def start (tenantId actionId : Uuid) : Approve := ⟨tenantId, actionId, .owned⟩

def statusText : ActionStatus → String
  | .pending => "pending"
  | .approved => "approved"
  | .rejected => "rejected"

def alreadyDecided (status : ActionStatus) : ApiError :=
  ⟨409, "already_decided", "action is already " ++ statusText status⟩

def approved (a : AgentAction) (decidedAt : ℚ) : AgentAction :=
  { a with status := .approved, decidedAt := some decidedAt }

/-- UPDATE of the action by its primary key. -/
def decide (s : Store) (a : AgentAction) (decidedAt : ℚ) : Store :=
  { s with
    db := { s.db with
      actions :=
        Table.update AgentAction.id s.db.actions a.id (fun row => approved row decidedAt) } }

def commands (rows : List Delivery) : List Command := rows.map Command.enqueue

def Present (db : Db) (rows : List Delivery) : Prop := ∀ d ∈ rows, (db.delivery d.id).isSome

instance (db : Db) (rows : List Delivery) : Decidable (Present db rows) :=
  inferInstanceAs (Decidable (∀ d ∈ rows, _))

/-- One await of the request; a call that can only raise has no step. -/
def step (streamShards : Nat) (clock : ℚ) (s : Store) (r : Approve) : Option (Store × Approve) :=
  match r.pc with
  | .owned => some (s, { r with pc := .loadAction (s.db.tenantEndpointIds r.tenantId) })
  | .loadAction owned =>
    match (s.db.action r.actionId).filter (fun a => a.endpointId ∈ owned) with
    | none => some (s, { r with pc := .done (.error (notFound "action")) })
    | some a =>
      if a.status = .pending then some (s, { r with pc := .loadEndpoint a })
      else some (s, { r with pc := .done (.error (alreadyDecided a.status)) })
  | .loadEndpoint a =>
    match s.db.endpoint a.endpointId with
    | none => none
    | some e =>
      match a.action with
      | .pauseEndpoint => some (s, { r with pc := .commitPause a e clock })
      | .replayDlq => some (s, { r with pc := .selectDead a e })
  | .selectDead a e => some (s, { r with pc := .commitReplay a e (s.db.dead e.id) clock })
  | .commitPause a e decidedAt =>
    let paused := if e.status = .paused then s else s.setEndpointStatus e.id .paused
    some (decide paused a decidedAt, { r with pc := .done (.ok (approved a decidedAt)) })
  | .commitReplay a e rows decidedAt =>
    if Present s.db rows then
      some (decide (commitRequeued s rows) a decidedAt,
        { r with
          pc := if rows = [] then .done (.ok (approved a decidedAt))
            else .reset (approved a decidedAt) e rows })
    else none
  | .reset a e rows =>
    some (s.resetBreaker e.id, { r with pc := .requeue a (commands rows) })
  | .requeue a [] => some (s, { r with pc := .done (.ok a) })
  | .requeue a (c :: rest) =>
    some (c.exec streamShards .approve s, { r with pc := .requeue a rest })
  | .done _ => none

end Approve

inductive RejectPc where
  | owned
  | loadAction (owned : List Uuid)
  | commit (action : AgentAction) (decidedAt : ℚ)
  | done (result : Except ApiError AgentAction)

structure Reject where
  tenantId : Uuid
  actionId : Uuid
  pc : RejectPc

namespace Reject

def start (tenantId actionId : Uuid) : Reject := ⟨tenantId, actionId, .owned⟩

def rejected (a : AgentAction) (decidedAt : ℚ) : AgentAction :=
  { a with status := .rejected, decidedAt := some decidedAt }

/-- UPDATE of the action by its primary key. -/
def decide (s : Store) (a : AgentAction) (decidedAt : ℚ) : Store :=
  { s with
    db := { s.db with
      actions :=
        Table.update AgentAction.id s.db.actions a.id (fun row => rejected row decidedAt) } }

/-- One await of the request. -/
def step (clock : ℚ) (s : Store) (r : Reject) : Option (Store × Reject) :=
  match r.pc with
  | .owned => some (s, { r with pc := .loadAction (s.db.tenantEndpointIds r.tenantId) })
  | .loadAction owned =>
    match (s.db.action r.actionId).filter (fun a => a.endpointId ∈ owned) with
    | none => some (s, { r with pc := .done (.error (notFound "action")) })
    | some a =>
      if a.status = .pending then some (s, { r with pc := .commit a clock })
      else some (s, { r with pc := .done (.error (Approve.alreadyDecided a.status)) })
  | .commit a decidedAt =>
    some (decide s a decidedAt, { r with pc := .done (.ok (rejected a decidedAt)) })
  | .done _ => none

end Reject

end Relay.Api
