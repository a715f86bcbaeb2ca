import Relay.Api.Parts

/-!
# What the selects of a tenant see

Every select of a handler is answered by the part of the tenant. Those that name
it say so; the others name a row that the handler has checked before, and rows
join rows of one tenant.
-/

namespace Relay.Api

open CircuitBreaker

section Selects

variable {s : Store} {t id : Uuid}

theorem ownedEndpoint_id {db : Db} {e : Endpoint} (found : ownedEndpoint db t id = some e) :
    e.id = id :=
  (Table.find_spec (P := fun e : Endpoint => e.id = id ∧ e.tenantId = t) found).2.1

theorem ownedEndpoint_owns {db : Db} {e : Endpoint} (found : ownedEndpoint db t id = some e) :
    owns db t id = true :=
  owns_iff.mpr
    ⟨e, Table.find_spec (P := fun e : Endpoint => e.id = id ∧ e.tenantId = t) found⟩

theorem ownedDiagnosis_spec {db : Db} {g : Diagnosis} (found : ownedDiagnosis db t id = some g) :
    g ∈ db.diagnoses ∧ g.id = id ∧ owns db t g.endpointId = true := by
  obtain ⟨listed, key, mine⟩ := Table.find_spec
    (P := fun g : Diagnosis => g.id = id ∧ g.endpointId ∈ db.tenantEndpointIds t) found
  exact ⟨listed, key, mem_tenantEndpointIds.mp mine⟩

theorem ownedDelivery_spec {db : Db} {d : Delivery} (found : ownedDelivery db t id = some d) :
    d ∈ db.deliveries ∧ d.id = id ∧ owns db t d.endpointId = true := by
  obtain ⟨listed, key, mine⟩ := Table.find_spec
    (P := fun d : Delivery => d.id = id ∧ d.endpointId ∈ db.tenantEndpointIds t) found
  exact ⟨listed, key, mem_tenantEndpointIds.mp mine⟩

theorem ownedAction_spec {db : Db} {a : AgentAction} (found : ownedAction db t id = some a) :
    a ∈ db.actions ∧ a.id = id ∧ owns db t a.endpointId = true := by
  obtain ⟨row, mine⟩ := Option.filter_eq_some_iff.mp found
  exact ⟨Table.get_mem row, Table.get_key row,
    mem_tenantEndpointIds.mp (of_decide_eq_true mine)⟩

/-! Selects that name the tenant -/

theorem endpoints_seen (s : Store) (t : Uuid) :
    s.db.endpoints.filter (fun e => e.tenantId = t) = (partOf t s).endpoints := rfl

theorem ownedEndpoint_seen (s : Store) (t id : Uuid) :
    ownedEndpoint s.db t id =
      (partOf t s).endpoints.find? (fun e => e.id = id ∧ e.tenantId = t) :=
  (Table.find_view (fun _ _ passes => decide_eq_true (of_decide_eq_true passes).2)).symm

theorem ownedEvent_seen (s : Store) (t id : Uuid) :
    ownedEvent s.db t id = (partOf t s).events.find? (fun v => v.id = id ∧ v.tenantId = t) :=
  (Table.find_view (fun _ _ passes => decide_eq_true (of_decide_eq_true passes).2)).symm

theorem existing_seen (s : Store) (t : Uuid) (key : String) :
    s.db.existingByIdempotencyKey t key =
      (partOf t s).events.find? (fun v => v.tenantId = t ∧ v.idempotencyKey = some key) :=
  (Table.find_view (fun _ _ passes => decide_eq_true (of_decide_eq_true passes).1)).symm

theorem fanOut_seen (s : Store) (t : Uuid) (eventType : String) :
    Ingest.fanOut s.db t eventType =
      ((partOf t s).endpoints.filter (fun e => e.tenantId = t ∧ e.status = .active)).filter
        (fun e => Ingest.Subscribed e eventType) :=
  congrArg (List.filter (fun e => Ingest.Subscribed e eventType))
    (Table.filter_view (fun _ _ passes => decide_eq_true (of_decide_eq_true passes).1)).symm

theorem deliveries_seen (s : Store) {test : Delivery → Bool}
    (mine : ∀ d ∈ s.db.deliveries, test d = true → owns s.db t d.endpointId = true) :
    s.db.deliveries.filter test = (partOf t s).deliveries.filter test :=
  (Table.filter_view mine).symm

theorem diagnoses_seen (s : Store) {test : Diagnosis → Bool}
    (mine : ∀ g ∈ s.db.diagnoses, test g = true → owns s.db t g.endpointId = true) :
    s.db.diagnoses.filter test = (partOf t s).diagnoses.filter test :=
  (Table.filter_view mine).symm

theorem ownedDelivery_seen (s : Store) (t id : Uuid) :
    ownedDelivery s.db t id = (partOf t s).deliveries.find?
      (fun d => d.id = id ∧ d.endpointId ∈ (partOf t s).endpoints.map Endpoint.id) :=
  (Table.find_view (fun _ _ passes =>
    mem_tenantEndpointIds.mp (of_decide_eq_true passes).2)).symm

theorem ownedDiagnosis_seen (s : Store) (t id : Uuid) :
    ownedDiagnosis s.db t id = (partOf t s).diagnoses.find?
      (fun g => g.id = id ∧ g.endpointId ∈ (partOf t s).endpoints.map Endpoint.id) :=
  (Table.find_view (fun _ _ passes =>
    mem_tenantEndpointIds.mp (of_decide_eq_true passes).2)).symm

theorem ownedAction_seen (tidy : Tidy s.db) (t id : Uuid) :
    ownedAction s.db t id = Table.get AgentAction.id (partOf t s).actions id := by
  have test : (fun a : AgentAction => decide (a.endpointId ∈ s.db.tenantEndpointIds t)) =
      fun a => owns s.db t a.endpointId := by
    funext a
    rw [Bool.eq_iff_iff, decide_eq_true_eq]
    exact mem_tenantEndpointIds
  unfold ownedAction
  rw [test]
  exact Table.get_view tidy.actionKeys

theorem narrow_seen (s : Store) (t : Uuid) (endpointId : Option Uuid) :
    narrow s.db t endpointId =
      match endpointId with
      | none => .ok ((partOf t s).endpoints.map Endpoint.id)
      | some id =>
        if id ∈ (partOf t s).endpoints.map Endpoint.id then .ok [id]
        else .error (notFound "endpoint") := by
  cases endpointId <;> rfl

theorem narrow_owned {db : Db} {endpointId : Option Uuid} {owned : List Uuid}
    (narrowed : narrow db t endpointId = .ok owned) : ∀ id ∈ owned, owns db t id = true := by
  intro id listed
  cases endpointId with
  | none =>
    cases narrowed
    exact mem_tenantEndpointIds.mp listed
  | some named =>
    by_cases mine : named ∈ db.tenantEndpointIds t
    · rw [narrow, if_pos mine, Except.ok.injEq] at narrowed
      rw [← narrowed, List.mem_singleton] at listed
      exact listed ▸ mem_tenantEndpointIds.mp mine
    · rw [narrow, if_neg mine] at narrowed
      cases narrowed

/-! Selects that name a row of the tenant -/

theorem endpoint_seen (tidy : Tidy s.db) (mine : owns s.db t id = true) :
    s.db.endpoint id = Table.get Endpoint.id (partOf t s).endpoints id := by
  refine (Table.find_view (fun e listed passes => decide_eq_true ?_)).symm
  obtain ⟨e', listed', key, tenant⟩ := owns_iff.mp mine
  have one : e = e' := List.inj_on_of_nodup_map tidy.endpointKeys listed listed'
    ((of_decide_eq_true passes).trans key.symm)
  exact one ▸ tenant

theorem dead_seen (mine : owns s.db t id = true) :
    s.db.dead id =
      (partOf t s).deliveries.filter (fun d => d.endpointId = id ∧ d.status = .dead) :=
  deliveries_seen s (fun _ _ passes => (of_decide_eq_true passes).1 ▸ mine)

theorem breaker_seen (mine : owns s.db t id = true) :
    s.breakers id = (partOf t s).breakers id := (if_pos mine).symm

theorem eventDeliveries_seen (tidy : Tidy s.db) {v : Event} (listed : v ∈ s.db.events)
    (mine : v.tenantId = t) :
    s.db.deliveries.filter (fun d => d.eventId = v.id) =
      (partOf t s).deliveries.filter (fun d => d.eventId = v.id) := by
  refine deliveries_seen s (fun d row passes => ?_)
  obtain ⟨e, endpoint, v', event, key, key', tenant⟩ := tidy.deliveries d row
  have one : v' = v := List.inj_on_of_nodup_map tidy.eventKeys event listed
    (key'.trans (of_decide_eq_true passes))
  exact owns_iff.mpr ⟨e, endpoint, key, tenant.symm.trans (one ▸ mine)⟩

theorem deliveryAttempts_seen {d : Delivery} (listed : d ∈ s.db.deliveries)
    (mine : owns s.db t d.endpointId = true) :
    s.db.attempts.filter (fun a => a.deliveryId = d.id) =
      (partOf t s).attempts.filter (fun a => a.deliveryId = d.id) := by
  refine (Table.filter_view (fun a _ passes => decide_eq_true ?_)).symm
  have visible : d ∈ s.db.deliveries.filter (fun d => owns s.db t d.endpointId) :=
    List.mem_filter.mpr ⟨listed, mine⟩
  exact of_decide_eq_true passes ▸ List.mem_map_of_mem visible

theorem diagnosisActions_seen (tidy : Tidy s.db) {g : Diagnosis} (listed : g ∈ s.db.diagnoses)
    (mine : owns s.db t g.endpointId = true) :
    s.db.actions.filter (fun a => a.diagnosisId = g.id) =
      (partOf t s).actions.filter (fun a => a.diagnosisId = g.id) := by
  refine (Table.filter_view (fun a row passes => ?_)).symm
  obtain ⟨g', diagnosis, key, same⟩ := tidy.actions a row
  have one : g' = g := List.inj_on_of_nodup_map tidy.diagnosisKeys diagnosis listed
    (key.trans (of_decide_eq_true passes))
  exact same ▸ one ▸ mine

end Selects

end Relay.Api
