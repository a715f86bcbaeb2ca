import Relay.Api.Commands
import Relay.Pipeline

/-!
# What workers alone touch

Locks, buckets, slots and messages. Requests, the scheduler and the
administration leave them as they are, and tenants are only ever added.
-/

namespace Relay

open CircuitBreaker RateLimit Worker Api

def Store.transient (s : Store) : (Uuid → Option (Expiring Uuid)) ×
    (Uuid → Option (Expiring Bucket)) × (Uuid → Option (Expiring (ZSet Uuid))) ×
      List BreakerEvent :=
  (s.locks, s.buckets, s.inflight, s.published)

/-- The same, and the tenants. -/
def Store.limits (s : Store) := (s.transient, s.db.tenants)

section Requests

variable {streamShards : Nat} {source : Source} {clock : ℚ} {s s' : Store}

theorem Api.Command.limits_exec (command : Command) :
    (command.exec streamShards source s).limits = s.limits := by
  obtain ⟨_, _, _, same⟩ := command.exec_frame streamShards source s
  rw [same]
  rfl

theorem Api.limits_commitRequeued (rows : List Delivery) :
    (commitRequeued s rows).limits = s.limits := by
  obtain ⟨_, _, same⟩ := commitRequeued_frame s rows
  rw [same]
  rfl

theorem Api.Ingest.limits_unreserve (t : Uuid) (key : Option String) :
    Store.limits { s with db := unreserve s.db t key } = s.limits := by
  cases key <;> rfl

theorem Api.Ingest.limits_insert (t : Uuid) (key : Option String) (issued : List Uuid) :
    Store.limits { s with db := reserve s.db t key, issued := issued } = s.limits := by
  cases key <;> rfl

theorem Api.Ingest.limits_commitEvent (event : Event) (deliveries : List Delivery) :
    (commitEvent s event deliveries).limits = s.limits := by
  unfold commitEvent
  cases event.idempotencyKey <;> rfl

theorem Api.Ingest.limits_step {ids : List Uuid} {r r' : Ingest}
    (h : Ingest.step streamShards ids s r = some (s', r')) : s'.limits = s.limits := by
  simp only [Ingest.step] at h
  repeat' split at h
  all_goals
    cases h <;> first
      | rfl
      | exact limits_insert _ _ _
      | exact limits_commitEvent _ _
      | exact limits_unreserve _ _
      | exact Command.limits_exec _

theorem Api.Replay.limits_step {r r' : Replay}
    (h : Replay.step streamShards s r = some (s', r')) : s'.limits = s.limits := by
  simp only [Replay.step] at h
  repeat' split at h
  all_goals
    cases h <;> first
      | rfl
      | exact limits_commitRequeued _
      | exact Command.limits_exec _

theorem Api.Approve.limits_step {r r' : Approve}
    (h : Approve.step streamShards clock s r = some (s', r')) : s'.limits = s.limits := by
  simp only [Approve.step] at h
  repeat' split at h
  all_goals
    cases h <;> first
      | rfl
      | exact limits_commitRequeued _
      | exact Command.limits_exec _

end Requests

namespace World

variable {env : Env} {l : Label} {x y : World}

theorem step_limits (h : World.step env l x = some y) (other : ∀ w c, l ≠ .work w c)
    (same : ∀ t, l ≠ .createTenant t) : y.store.limits = x.store.limits := by
  cases l with
  | work w c => exact absurd rfl (other w c)
  | createTenant t => exact absurd rfl (same t)
  | serve r ids =>
    simp only [World.step, stepServe] at h
    repeat' split at h
    all_goals cases h
    · rename_i next
      exact Ingest.limits_step next
    · rename_i next
      exact Replay.limits_step next
    · rename_i next
      exact Approve.limits_step next
  | fail r =>
    simp only [World.step, stepFail] at h
    repeat' split at h
    all_goals cases h
    · rename_i next
      simp only [Ingest.fail] at next
      split at next <;> cases next <;> first
        | rfl
        | exact Ingest.limits_unreserve _ _
    · rfl
    · rfl
  | tick | createEndpoint | patchEndpoint | proposeAction | resetBreaker | read | claim | take
  | raise | crash | schedule | arrive =>
    simp only [World.step, stepTick, stepCreateEndpoint, stepPatchEndpoint, stepProposeAction,
      stepResetBreaker, stepRead, stepClaim, stepBegin, stepRaise, stepCrash, stepSchedule,
      stepArrive] at h
    repeat' split at h
    all_goals cases h <;> rfl

theorem step_transient (h : World.step env l x = some y) (other : ∀ w c, l ≠ .work w c) :
    y.store.transient = x.store.transient := by
  by_cases tenant : ∃ t, l = .createTenant t
  · obtain ⟨t, rfl⟩ := tenant
    simp only [World.step, stepCreateTenant] at h
    split at h <;> cases h
    rfl
  · exact congrArg Prod.fst (step_limits h other (fun t same => tenant ⟨t, same⟩))

end World

end Relay
