import Relay.Lib.Series
import Relay.Store
import Mathlib.Data.List.Dedup

/-!
# The gauges of the retry scheduler

The scheduler counts the dead deliveries of every tenant and reads the breakers of
the active endpoints, and sets the series of those it meets.
-/

namespace Relay

open CircuitBreaker

namespace Db

def tenantOf (db : Db) (d : Delivery) : Option Uuid :=
  (db.endpoint d.endpointId).map Endpoint.tenantId

/-- The number of dead deliveries to endpoints of a tenant. -/
def deadOf (db : Db) (tenantId : Uuid) : Nat :=
  db.deliveries.countP (fun d => d.status = .dead ∧ db.tenantOf d = some tenantId)

def activeIds (db : Db) : List Uuid :=
  (db.endpoints.filter (fun e => e.status = .active)).map Endpoint.id

end Db

namespace Gauges

/-- `BREAKER_STATE_VALUES`. -/
def breakerStateValue : BreakerState → Nat
  | .closed => 0
  | .halfOpen => 1
  | .opened => 2

theorem breakerStateValue_injective : Function.Injective breakerStateValue := by
  intro s t same
  cases s <;> cases t <;> first | rfl | cases same

@[simp] theorem breakerStateValue_eq_zero {s : BreakerState} :
    breakerStateValue s = 0 ↔ s = .closed :=
  ⟨fun zero => breakerStateValue_injective zero, fun closed => closed ▸ rfl⟩

end Gauges

structure Gauges where
  retryQueueDepth : Nat := 0
  /-- `relay_dlq_size`, by tenant. -/
  dlqSize : Series Uuid Nat := .empty
  /-- `relay_breaker_state`, by endpoint. -/
  breakerState : Series Uuid Nat := .empty

namespace Gauges

/-- The join of the endpoints with their dead deliveries: the tenant of each. -/
def deadTenants (db : Db) : List Uuid :=
  db.deliveries.filterMap (fun d => if d.status = .dead then db.tenantOf d else none)

/-- `GROUP BY Endpoint.tenant_id`, with the counts. -/
def deadCounts (db : Db) : List (Uuid × Nat) :=
  (deadTenants db).dedup.map (fun tenantId => (tenantId, (deadTenants db).count tenantId))

/-- `refresh_gauges`. -/
def refresh (s : Store) (g : Gauges) : Gauges where
  retryQueueDepth := s.queues.retries.card
  dlqSize := (deadCounts s.db).foldl (fun g row => g.set row.1 row.2) g.dlqSize
  breakerState := s.db.activeIds.foldl (fun g endpointId =>
    let state := (s.breakers endpointId).current
    if state ≠ .closed then g.set endpointId (breakerStateValue state) else g) g.breakerState

/-- The value of the breaker of an endpoint. -/
def breakerValue (s : Store) (endpointId : Uuid) : Nat :=
  breakerStateValue (s.breakers endpointId).current

theorem count_deadTenants (db : Db) (tenantId : Uuid) :
    (deadTenants db).count tenantId = db.deadOf tenantId := by
  rw [deadTenants, List.count_filterMap, Db.deadOf]
  refine List.countP_congr (fun d _ => ?_)
  by_cases dead : d.status = .dead
  · simp [dead]
  · simp [dead]

theorem mem_deadTenants {db : Db} {tenantId : Uuid} :
    tenantId ∈ deadTenants db ↔ 0 < db.deadOf tenantId := by
  rw [← count_deadTenants]
  exact List.count_pos_iff.symm

/-- The series of the tenants are swept, for those with a dead delivery. -/
theorem refresh_dlqSize (s : Store) (g : Gauges) :
    (refresh s g).dlqSize = g.dlqSize.sweep (deadTenants s.db).dedup s.db.deadOf := by
  simp only [refresh, deadCounts, Series.sweep, List.foldl_map, count_deadTenants]

/-- The active endpoints whose breaker is not closed. -/
def unhealthy (s : Store) : List Uuid :=
  s.db.activeIds.filter (fun endpointId => (s.breakers endpointId).current ≠ .closed)

theorem refresh_breakerState (s : Store) (g : Gauges) :
    (refresh s g).breakerState = g.breakerState.sweep (unhealthy s) (breakerValue s) := by
  simp only [refresh, Series.sweep, unhealthy, List.foldl_filter, decide_eq_true_eq]
  rfl

/-- Every exported series of tenants and breakers has its present value. -/
structure Exact (s : Store) (g : Gauges) : Prop where
  dlqSize : g.dlqSize.Shows s.db.deadOf
  breakerState : g.breakerState.Shows (breakerValue s)

/-- Nothing that was exported has left the sets that a refresh meets, unless the
last value of its series is still the present one. -/
structure Current (s : Store) (g : Gauges) : Prop where
  tenants : ∀ tenantId n, g.dlqSize tenantId = some n → 0 < s.db.deadOf tenantId
  breakers : ∀ endpointId v, g.breakerState endpointId = some v →
    (s.breakers endpointId).current ≠ .closed ∧
      (endpointId ∈ s.db.activeIds ∨ v = breakerValue s endpointId)

/-- No series is ever set to zero. -/
structure Nonzero (g : Gauges) : Prop where
  dlqSize : ∀ tenantId n, g.dlqSize tenantId = some n → n ≠ 0
  breakerState : ∀ endpointId v, g.breakerState endpointId = some v → v ≠ 0

variable {s : Store} {g : Gauges}

theorem nonzero_initial : Nonzero {} where
  dlqSize := by
    intro _ _ exported
    cases exported
  breakerState := by
    intro _ _ exported
    cases exported

theorem Nonzero.refresh (nonzero : g.Nonzero) (s : Store) : (refresh s g).Nonzero where
  dlqSize := by
    rw [refresh_dlqSize]
    refine Series.sweep_all nonzero.dlqSize (fun tenantId met => ?_)
    have dead := mem_deadTenants.mp (List.mem_dedup.mp met)
    omega
  breakerState := by
    rw [refresh_breakerState]
    refine Series.sweep_all nonzero.breakerState (fun endpointId met => ?_)
    have broken := of_decide_eq_true (List.mem_filter.mp met).2
    exact fun zero => broken (breakerStateValue_eq_zero.mp zero)

theorem refresh_tenants_exact (nonzero : g.Nonzero) :
    (refresh s g).dlqSize.Shows s.db.deadOf ↔
      ∀ tenantId n, g.dlqSize tenantId = some n → 0 < s.db.deadOf tenantId := by
  rw [refresh_dlqSize, Series.shows_sweep]
  constructor
  · intro others tenantId n exported
    by_contra none
    have unmet : tenantId ∉ (deadTenants s.db).dedup := by
      rw [List.mem_dedup, mem_deadTenants]
      exact none
    have same := others tenantId n exported unmet
    have := nonzero.dlqSize tenantId n exported
    omega
  · intro dead tenantId n exported unmet
    rw [List.mem_dedup, mem_deadTenants] at unmet
    exact absurd (dead tenantId n exported) unmet

theorem refresh_breakers_exact (nonzero : g.Nonzero) :
    (refresh s g).breakerState.Shows (breakerValue s) ↔
      ∀ endpointId v, g.breakerState endpointId = some v →
        (s.breakers endpointId).current ≠ .closed ∧
          (endpointId ∈ s.db.activeIds ∨ v = breakerValue s endpointId) := by
  rw [refresh_breakerState, Series.shows_sweep]
  have met : ∀ endpointId, endpointId ∈ unhealthy s ↔
      endpointId ∈ s.db.activeIds ∧ (s.breakers endpointId).current ≠ .closed := by
    intro endpointId
    rw [unhealthy, List.mem_filter, decide_eq_true_eq]
  constructor
  · intro others endpointId v exported
    by_cases swept : endpointId ∈ unhealthy s
    · obtain ⟨active, broken⟩ := (met endpointId).mp swept
      exact ⟨broken, Or.inl active⟩
    · have same := others endpointId v exported swept
      refine ⟨fun closed => nonzero.breakerState endpointId v exported ?_, Or.inr same⟩
      rw [same]
      exact breakerStateValue_eq_zero.mpr closed
  · intro held endpointId v exported unmet
    obtain ⟨broken, active | same⟩ := held endpointId v exported
    · exact absurd ((met endpointId).mpr ⟨active, broken⟩) unmet
    · exact same

/-- A refresh leaves the present values exactly if nothing exported has gone. -/
theorem refresh_exact (nonzero : g.Nonzero) : Exact s (refresh s g) ↔ Current s g := by
  constructor
  · intro exact
    exact ⟨(refresh_tenants_exact nonzero).mp exact.dlqSize,
      (refresh_breakers_exact nonzero).mp exact.breakerState⟩
  · intro current
    exact ⟨(refresh_tenants_exact nonzero).mpr current.tenants,
      (refresh_breakers_exact nonzero).mpr current.breakers⟩

end Gauges

end Relay
