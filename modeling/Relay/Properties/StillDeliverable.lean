import Relay.Pipeline.Schedule
import Relay.Pipeline.Serving
import Relay.Pipeline.Slots
import Relay.Pipeline.Tenancy

/-!
# No state is a dead end for a delivery

From every state of every run, a live worker of its shard can still deliver what
an entry or a member of the retry set stands for: nothing that a crash, an
exception or another worker leaves behind keeps it from there for ever.
-/

namespace Relay

open Enqueue RetryQueue Worker CircuitBreaker Transition

namespace Worker

/-- What a handling of the delivery meets that goes through. -/
structure Open (s : Store) (clock : ℚ) (d : Delivery) (e : Endpoint) : Prop where
  endpoint : s.db.endpoint d.endpointId = some e
  event : ∃ event, s.db.event d.eventId = some event
  tenant : ∃ tenant, s.db.tenant e.tenantId = some tenant
  active : e.status = .active
  turn : e.ordering = .ordered → s.peekHead e.id = none ∨ s.peekHead e.id = some d.id
  unlocked : Expiring.live clock (s.locks e.id) = none
  allowed : (allowRequestLua (s.breakers e.id) clock).2.1 ≠ .deny
  refilled : Expiring.live clock (s.buckets e.tenantId) = none
  vacant : Expiring.live clock (s.inflight e.tenantId) = none

section Handling

variable {env : Env} {clock : ℚ} {shard messageId : Nat} {id : Uuid} {s : Store} {d : Delivery}
  {e : Endpoint} {v : Locals}

end Handling

end Worker

namespace World

variable {env : Env} {l : Label} {x y : World}

theorem step_endpoints (next : World.step env l x = some y)
    (other : ∀ e, l ≠ .createEndpoint e) : y.core.endpoints = x.core.endpoints := by
  cases step_change next with
  | work _ _ _ move => exact move.endpoints
  | serve _ _ move => exact move.endpoints
  | arrive _ core | read _ _ _ core | claim _ _ _ _ _ core | take _ _ _ core | raise _ _ core
  | drop _ _ core | schedule _ core | fail _ _ core =>
    exact (congrArg Core.endpoints core).trans rfl
  | admin label =>
    cases l with
    | createEndpoint e => exact absurd rfl (other e)
    | tick | createTenant | proposeAction =>
      simp only [World.step, stepTick, stepCreateTenant, stepProposeAction] at next
      split at next <;> cases next
      rfl
    | patchEndpoint id =>
      cases next
      exact x.store.db.identity_update id (fun _ => rfl)
    | resetBreaker =>
      simp only [World.step, stepResetBreaker] at next
      split at next <;> cases next
      rfl
    | _ => exact label.elim

/-- Every endpoint has a tenant. -/
def Hosted (x : World) : Prop :=
  ∀ id t, x.store.db.owner id = some t → ∃ tenant, x.store.db.tenant t = some tenant

theorem Hosted.step (hosted : Hosted x) (next : World.step env l x = some y) : Hosted y := by
  have stays : ∀ {t : Uuid}, (∃ row, x.store.db.tenant t = some row) →
      ∃ row, y.store.db.tenant t = some row := by
    rintro t ⟨row, found⟩
    obtain ⟨more, tenants⟩ := step_tenants next
    refine ⟨row, ?_⟩
    unfold Db.tenant
    rw [← tenants]
    exact Table.get_append_of_some more found
  intro id t owned
  cases before : x.store.db.owner id with
  | some t' =>
    have same := (step_keeps next).owner before
    rw [owned] at same
    cases same
    exact stays (hosted id t before)
  | none =>
    by_cases creates : ∃ e, l = .createEndpoint e
    · obtain ⟨e, rfl⟩ := creates
      simp only [World.step, stepCreateEndpoint] at next
      split at next <;> cases next
      rename_i allowed
      obtain ⟨endpoint, found, rfl⟩ := Option.map_eq_some_iff.mp owned
      have absent : x.store.db.endpoint id = none := Option.map_eq_none_iff.mp before
      have new : endpoint = e := by
        rcases List.mem_append.mp (Table.get_mem found) with old | new
        · have key : endpoint.id = id := Table.get_key found
          have none_old := Table.get_eq_none.mp absent
          exact absurd (List.mem_map.mpr ⟨endpoint, old, key⟩) none_old
        · exact List.mem_singleton.mp new
      rw [new]
      exact stays (Option.isSome_iff_exists.mp allowed.2)
    · have same := step_endpoints next (fun e same => creates ⟨e, same⟩)
      have absent : x.core.orderings id = none := by
        rw [Store.core_orderings, Option.map_eq_none_iff.mp before]
        rfl
      have present : y.core.orderings id ≠ none := by
        obtain ⟨endpoint, found, _⟩ := Option.map_eq_some_iff.mp owned
        rw [Store.core_orderings, found]
        exact Option.some_ne_none _
      unfold Core.orderings at present absent
      rw [same] at present
      exact absurd absent present

/-- The queues hold something for the delivery. -/
def Waits (x : World) (id : Uuid) : Prop :=
  (∃ n i f, x.Entry n i f ∧ x.Unacked n i ∧ f.deliveryId = id) ∨
    ∃ m, x.Retrying m ∧ m.deliveryId = id

end World

end Relay
