import Relay.Api.Diagnoses
import Relay.Api.Dlq
import Relay.Core

/-!
# What a request does to the durable core

The abstract request: the rows it is about to insert or to requeue and the
commands it has yet to issue. All three kinds of request are instances.
-/

namespace Relay.Api

open Enqueue RetryQueue

inductive Job where
  | idle
  | inserting (event : Event) (endpoints : List Endpoint) (deliveries : List Delivery)
  | selected (rows : List Delivery)
  | enqueueing (source : Source) (commands : List Command)
  | ended

def Ingest.job (r : Ingest) : Job :=
  match r.pc with
  | .lookup | .queryEndpoints | .rollback => .idle
  | .commit event endpoints deliveries => .inserting event endpoints deliveries
  | .enqueue _ commands => .enqueueing .ingest commands
  | .accepted _ | .failed _ => .ended

def Replay.job (streamShards : Nat) (r : Replay) : Job :=
  match r.pc with
  | .owned | .loadOrdering | .select _ => .idle
  | .commit _ rows => .selected rows
  | .reset ordering rows => .enqueueing .replay (Replay.commands streamShards ordering rows)
  | .requeue _ commands => .enqueueing .replay commands
  | .done _ => .ended

def Approve.job (r : Approve) : Job :=
  match r.pc with
  | .owned | .loadAction _ | .loadEndpoint _ | .selectDead _ _ | .commitPause _ _ _ => .idle
  | .commitReplay _ _ rows _ => .selected rows
  | .reset _ _ rows => .enqueueing .approve (Approve.commands rows)
  | .requeue _ commands => .enqueueing .approve commands
  | .done _ => .ended

/-- The commands of the two replay paths for the rows that they selected. -/
inductive Requeues (streamShards : Nat) (rows : List Delivery) : Source → List Command → Prop
  | replay (ordering : Ordering) :
      Requeues streamShards rows .replay (Replay.commands streamShards ordering rows)
  | approve : Requeues streamShards rows .approve (Approve.commands rows)

/-- One await of a request: the job before, the core after, the job after. -/
inductive JobMove (streamShards : Nat) (s : Store) : Job → Core → Job → Prop
  | stay {j : Job} : JobMove streamShards s j s.core j
  | leave : JobMove streamShards s .idle s.core .ended
  | insert {event : Event} {endpoints : List Endpoint} {ids : List Uuid}
      (fresh : Ingest.Fresh s (event.id :: ids)) (drawn : ids.length = endpoints.length)
      (listed : ∀ e ∈ endpoints, e ∈ s.db.endpoints) :
      JobMove streamShards s .idle (s.core.issue (event.id :: ids))
        (.inserting event endpoints (Ingest.newDeliveries event.id ids endpoints))
  | commit {event : Event} {endpoints : List Endpoint} {deliveries : List Delivery} :
      JobMove streamShards s (.inserting event endpoints deliveries)
        (s.core.commitEvent event deliveries)
        (.enqueueing .ingest (Ingest.commands endpoints deliveries))
  | rollback {event : Event} {endpoints : List Endpoint} {deliveries : List Delivery} :
      JobMove streamShards s (.inserting event endpoints deliveries) s.core .idle
  | select {rows : List Delivery} (dead : ∀ d ∈ rows, d ∈ s.db.deliveries ∧
      d.status = .dead) :
      JobMove streamShards s .idle s.core (.selected rows)
  | nothing : JobMove streamShards s (.selected []) s.core .ended
  | requeue {rows : List Delivery} {source : Source} {commands : List Command}
      (issued : Requeues streamShards rows source commands) :
      JobMove streamShards s (.selected rows) (s.core.commitRequeued rows)
        (.enqueueing source commands)
  | exec {source : Source} {c : Command} {rest : List Command} :
      JobMove streamShards s (.enqueueing source (c :: rest))
        (s.core.exec streamShards source c) (.enqueueing source rest)
  | finish {source : Source} : JobMove streamShards s (.enqueueing source []) s.core .ended

theorem JobMove.extends {streamShards : Nat} {s : Store} {j j' : Job} {c : Core}
    (h : JobMove streamShards s j c j') : s.core.Extends c := by
  cases h with
  | insert => exact s.core.extends_issue _
  | commit => exact s.core.extends_commitEvent _ _
  | requeue => exact s.core.extends_commitRequeued _
  | exec => exact s.core.extends_exec _ _ _
  | _ => exact .refl _

theorem Ingest.mem_fanOut {db : Db} {tenantId : Uuid} {eventType : String} {e : Endpoint} :
    e ∈ fanOut db tenantId eventType ↔
      e ∈ db.endpoints ∧ e.tenantId = tenantId ∧ e.status = .active ∧
        Subscribed e eventType := by
  simp only [fanOut, List.mem_filter, decide_eq_true_eq]
  tauto

theorem Ingest.core_db {s : Store} {db : Db} (deliveries : db.deliveries = s.db.deliveries)
    (events : db.events = s.db.events) (endpoints : db.endpoints = s.db.endpoints) :
    Store.core { s with db := db } = s.core := by
  simp only [Store.core, deliveries, events, endpoints]

@[simp] theorem Ingest.core_abandon (s : Store) (r : Ingest) : (abandon s r).core = s.core := by
  unfold abandon unreserve
  split <;> exact core_db rfl rfl rfl

@[simp] theorem Ingest.core_commitEvent (s : Store) (event : Event) (deliveries : List Delivery) :
    (commitEvent s event deliveries).core = s.core.commitEvent event deliveries := by
  unfold commitEvent unreserve
  split <;> rfl

theorem Ingest.core_insert (s : Store) (tenantId : Uuid) (key : Option String)
    (ids : List Uuid) :
    Store.core { s with db := reserve s.db tenantId key, issued := ids ++ s.issued } =
      s.core.issue ids := by
  unfold reserve
  split <;> rfl

theorem Ingest.step_move {streamShards : Nat} {ids : List Uuid} {s s' : Store} {r r' : Ingest}
    (h : Ingest.step streamShards ids s r = some (s', r')) :
    JobMove streamShards s r.job s'.core r'.job := by
  unfold Ingest.step at h
  unfold Ingest.job
  split at h <;> rename_i pc <;> simp only [pc]
  · split at h <;> cases h
    · exact .leave
    · exact .stay
  · split at h
    · cases h
      exact .leave
    · split at h
      · cases h
      · simp only at h
        split at h
        · cases h
        · rename_i eventId deliveryIds
          split at h
          · rename_i drawn
            cases h
            rw [Ingest.core_insert]
            have fresh : Ingest.Fresh s ((⟨eventId, r.tenantId, r.body.eventType, r.body.payload,
                r.body.idempotencyKey⟩ : Event).id :: deliveryIds) := drawn.1
            exact .insert fresh drawn.2
              (fun e he => (Ingest.mem_fanOut.mp he).1)
          · cases h
  · split at h <;> cases h
    · rw [Ingest.core_commitEvent]
      exact .commit
    · exact .rollback
  · cases h
    rw [Ingest.core_abandon]
    exact .leave
  · cases h
    exact .finish
  · cases h
    rw [Store.core_exec]
    exact .exec
  · cases h
  · cases h

/-- A failed request leaves the core alone. -/
theorem Ingest.fail_job {s s' : Store} {r r' : Ingest} (h : Ingest.fail s r = some (s', r')) :
    s'.core = s.core ∧ r'.job = .ended := by
  unfold Ingest.fail at h
  split at h <;> cases h
  · exact ⟨Ingest.core_abandon s r, rfl⟩
  · exact ⟨Ingest.core_abandon s r, rfl⟩
  · exact ⟨rfl, rfl⟩

theorem Replay.step_move {streamShards : Nat} {s s' : Store} {r r' : Replay}
    (h : Replay.step streamShards s r = some (s', r')) :
    JobMove streamShards s (r.job streamShards) s'.core (r'.job streamShards) := by
  unfold Replay.step at h
  unfold Replay.job
  split at h <;> rename_i pc <;> simp only [pc]
  · split at h <;> cases h
    · exact .stay
    · exact .leave
  · split at h <;> cases h
    exact .stay
  · cases h
    refine .select (fun d hd => ?_)
    have dead := Replay.selected_dead hd
    exact ⟨dead.1, dead.2.2⟩
  · rename_i ordering rows
    split at h <;> cases h
    rw [Store.core_commitRequeued]
    by_cases empty : rows = []
    · subst empty
      exact .nothing
    · simp only [empty, if_false]
      exact .requeue (.replay ordering)
  · cases h
    exact .stay
  · cases h
    exact .finish
  · cases h
    rw [Store.core_exec]
    exact .exec
  · cases h

theorem Approve.core_decide (s : Store) (a : AgentAction) (decidedAt : ℚ) :
    (Approve.decide s a decidedAt).core = s.core := rfl

theorem Approve.step_move {streamShards : Nat} {clock : ℚ} {s s' : Store} {r r' : Approve}
    (h : Approve.step streamShards clock s r = some (s', r')) :
    JobMove streamShards s r.job s'.core r'.job := by
  unfold Approve.step at h
  unfold Approve.job
  split at h <;> rename_i pc <;> simp only [pc]
  · cases h
    exact .stay
  · split at h
    · cases h
      exact .leave
    · split at h <;> cases h
      · exact .stay
      · exact .leave
  · split at h
    · cases h
    · split at h <;> cases h <;> exact .stay
  · cases h
    refine .select (fun d hd => ?_)
    simp only [Db.dead, List.mem_filter, decide_eq_true_eq] at hd
    exact ⟨hd.1, hd.2.2⟩
  · simp only at h
    cases h
    rw [Approve.core_decide]
    split
    · exact .leave
    · rw [Store.core_setEndpointStatus]
      exact .leave
  · rename_i a e rows decidedAt
    split at h <;> cases h
    rw [Approve.core_decide, Store.core_commitRequeued]
    by_cases empty : rows = []
    · subst empty
      exact .nothing
    · simp only [empty, if_false]
      exact .requeue .approve
  · cases h
    exact .stay
  · cases h
    exact .finish
  · cases h
    rw [Store.core_exec]
    exact .exec
  · cases h

end Relay.Api
