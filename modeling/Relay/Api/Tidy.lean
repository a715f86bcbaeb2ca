import Relay.Api.Requests

/-!
# Rows join rows of one tenant

Every write of a request keeps the tables tidy, and so does every request.
-/

namespace Relay.Api

open Enqueue

namespace Tidy

variable {db db' : Db} {k : Uuid}

theorem updateEndpoint (tidy : Tidy db) {f : Endpoint → Endpoint}
    (keeps : ∀ e, (f e).id = e.id ∧ (f e).tenantId = e.tenantId) :
    Tidy { db with endpoints := Table.update Endpoint.id db.endpoints k f } where
  endpointKeys := by
    rw [Table.keys_update (fun e => (keeps e).1)]
    exact tidy.endpointKeys
  deliveryKeys := tidy.deliveryKeys
  diagnosisKeys := tidy.diagnosisKeys
  actionKeys := tidy.actionKeys
  deliveries := by
    intro d listed
    refine Table.exists_update (fun e joined => ?_) (tidy.deliveries d listed)
    obtain ⟨v, row, key, key', tenant⟩ := joined
    exact ⟨v, row, (keeps e).1.trans key, key', tenant.trans (keeps e).2.symm⟩
  eventKeys := tidy.eventKeys
  attempts := tidy.attempts
  diagnoses := fun g listed =>
    Table.exists_update (fun e key => (keeps e).1.trans key) (tidy.diagnoses g listed)
  actions := tidy.actions

theorem updateDelivery (tidy : Tidy db) {f : Delivery → Delivery}
    (keeps : ∀ d, (f d).id = d.id ∧ (f d).eventId = d.eventId ∧
      (f d).endpointId = d.endpointId) :
    Tidy { db with deliveries := Table.update Delivery.id db.deliveries k f } where
  endpointKeys := tidy.endpointKeys
  deliveryKeys := by
    rw [Table.keys_update (fun d => (keeps d).1)]
    exact tidy.deliveryKeys
  diagnosisKeys := tidy.diagnosisKeys
  actionKeys := tidy.actionKeys
  deliveries := by
    intro d listed
    rcases Table.mem_update listed with ⟨old, row, _, rfl⟩ | row
    · obtain ⟨e, endpoint, v, event, key, key', tenant⟩ := tidy.deliveries old row
      exact ⟨e, endpoint, v, event, key.trans (keeps old).2.2.symm,
        key'.trans (keeps old).2.1.symm, tenant⟩
    · exact tidy.deliveries d row
  eventKeys := tidy.eventKeys
  attempts := fun a listed =>
    Table.exists_update (fun d key => (keeps d).1.trans key) (tidy.attempts a listed)
  diagnoses := tidy.diagnoses
  actions := tidy.actions

theorem updateDiagnosis (tidy : Tidy db) {f : Diagnosis → Diagnosis}
    (keeps : ∀ g, (f g).id = g.id ∧ (f g).endpointId = g.endpointId) :
    Tidy { db with diagnoses := Table.update Diagnosis.id db.diagnoses k f } where
  endpointKeys := tidy.endpointKeys
  deliveryKeys := tidy.deliveryKeys
  diagnosisKeys := by
    rw [Table.keys_update (fun g => (keeps g).1)]
    exact tidy.diagnosisKeys
  actionKeys := tidy.actionKeys
  deliveries := tidy.deliveries
  eventKeys := tidy.eventKeys
  attempts := tidy.attempts
  diagnoses := by
    intro g listed
    rcases Table.mem_update listed with ⟨old, row, _, rfl⟩ | row
    · rw [(keeps old).2]
      exact tidy.diagnoses old row
    · exact tidy.diagnoses g row
  actions := fun a listed => Table.exists_update
    (fun g joined => ⟨(keeps g).1.trans joined.1, (keeps g).2.trans joined.2⟩)
    (tidy.actions a listed)

theorem updateAction (tidy : Tidy db) {f : AgentAction → AgentAction}
    (keeps : ∀ a, (f a).id = a.id ∧ (f a).diagnosisId = a.diagnosisId ∧
      (f a).endpointId = a.endpointId) :
    Tidy { db with actions := Table.update AgentAction.id db.actions k f } where
  endpointKeys := tidy.endpointKeys
  deliveryKeys := tidy.deliveryKeys
  diagnosisKeys := tidy.diagnosisKeys
  actionKeys := by
    rw [Table.keys_update (fun a => (keeps a).1)]
    exact tidy.actionKeys
  deliveries := tidy.deliveries
  eventKeys := tidy.eventKeys
  attempts := tidy.attempts
  diagnoses := tidy.diagnoses
  actions := by
    intro a listed
    rcases Table.mem_update listed with ⟨old, row, _, rfl⟩ | row
    · rw [(keeps old).2.1, (keeps old).2.2]
      exact tidy.actions old row
    · exact tidy.actions a row

/-- A table with one more row, of a key that it does not have. -/
theorem nodup_snoc {R : Type} {key : R → Uuid} {rows : List R} {row : R}
    (distinct : (rows.map key).Nodup) (unused : key row ∉ rows.map key) :
    ((rows ++ [row]).map key).Nodup := by
  rw [List.map_append, List.nodup_append]
  refine ⟨distinct, List.nodup_singleton _, fun a listed b last => ?_⟩
  rw [List.map_singleton, List.mem_singleton] at last
  rintro rfl
  exact unused (last ▸ listed)

theorem addEndpoint (tidy : Tidy db) {e : Endpoint}
    (unused : e.id ∉ db.endpoints.map Endpoint.id) :
    Tidy { db with endpoints := db.endpoints ++ [e] } where
  endpointKeys := nodup_snoc tidy.endpointKeys unused
  deliveryKeys := tidy.deliveryKeys
  diagnosisKeys := tidy.diagnosisKeys
  actionKeys := tidy.actionKeys
  deliveries := by
    intro d listed
    obtain ⟨e', row, joined⟩ := tidy.deliveries d listed
    exact ⟨e', List.mem_append_left _ row, joined⟩
  eventKeys := tidy.eventKeys
  attempts := tidy.attempts
  diagnoses := by
    intro g listed
    obtain ⟨e', row, key⟩ := tidy.diagnoses g listed
    exact ⟨e', List.mem_append_left _ row, key⟩
  actions := tidy.actions

theorem addEvent (tidy : Tidy db) {v : Event} {rows : List Delivery}
    (unused : v.id ∉ db.events.map Event.id) (distinct : (rows.map Delivery.id).Nodup)
    (unused' : ∀ d ∈ rows, d.id ∉ db.deliveries.map Delivery.id)
    (joined : ∀ d ∈ rows, d.eventId = v.id ∧ owns db v.tenantId d.endpointId = true) :
    Tidy { db with events := db.events ++ [v], deliveries := db.deliveries ++ rows } where
  endpointKeys := tidy.endpointKeys
  deliveryKeys := by
    rw [List.map_append, List.nodup_append]
    refine ⟨tidy.deliveryKeys, distinct, fun a listed b added => ?_⟩
    rintro rfl
    obtain ⟨d, row, rfl⟩ := List.mem_map.mp added
    exact unused' d row listed
  diagnosisKeys := tidy.diagnosisKeys
  actionKeys := tidy.actionKeys
  deliveries := by
    intro d listed
    rcases List.mem_append.mp listed with old | new
    · obtain ⟨e, row, v', event, same⟩ := tidy.deliveries d old
      exact ⟨e, row, v', List.mem_append_left _ event, same⟩
    · obtain ⟨event, mine⟩ := joined d new
      obtain ⟨e, row, key, tenant⟩ := owns_iff.mp mine
      exact ⟨e, row, v, List.mem_append_right _ List.mem_cons_self, key, event.symm,
        tenant.symm⟩
  eventKeys := nodup_snoc tidy.eventKeys unused
  attempts := by
    intro a listed
    obtain ⟨d, row, key⟩ := tidy.attempts a listed
    exact ⟨d, List.mem_append_left _ row, key⟩
  diagnoses := tidy.diagnoses
  actions := tidy.actions

theorem addAttempt (tidy : Tidy db) {a : DeliveryAttempt}
    (present : ∃ d ∈ db.deliveries, d.id = a.deliveryId) :
    Tidy { db with attempts := db.attempts ++ [a] } :=
  { tidy with
    attempts := fun a' listed => (List.mem_append.mp listed).elim (tidy.attempts a')
      (fun last => List.mem_singleton.mp last ▸ present) }

theorem addDiagnosis (tidy : Tidy db) {g : Diagnosis}
    (unused : g.id ∉ db.diagnoses.map Diagnosis.id)
    (present : ∃ e ∈ db.endpoints, e.id = g.endpointId) :
    Tidy { db with diagnoses := db.diagnoses ++ [g] } :=
  { tidy with
    diagnosisKeys := nodup_snoc tidy.diagnosisKeys unused
    diagnoses := fun g' listed => (List.mem_append.mp listed).elim (tidy.diagnoses g')
      (fun last => List.mem_singleton.mp last ▸ present)
    actions := by
      intro a listed
      obtain ⟨g', row, joined⟩ := tidy.actions a listed
      exact ⟨g', List.mem_append_left _ row, joined⟩ }

theorem addAction (tidy : Tidy db) {a : AgentAction}
    (unused : a.id ∉ db.actions.map AgentAction.id)
    (present : ∃ g ∈ db.diagnoses, g.id = a.diagnosisId ∧ g.endpointId = a.endpointId) :
    Tidy { db with actions := db.actions ++ [a] } :=
  { tidy with
    actionKeys := nodup_snoc tidy.actionKeys unused
    actions := fun a' listed => (List.mem_append.mp listed).elim (tidy.actions a')
      (fun last => List.mem_singleton.mp last ▸ present) }

/-- The cascade leaves no row behind that joins a row it took. -/
theorem deleted (tidy : Tidy db) (id : Uuid) : Tidy (Api.deleted db id) where
  endpointKeys := tidy.endpointKeys.sublist (List.filter_sublist.map _)
  deliveryKeys := tidy.deliveryKeys.sublist (List.filter_sublist.map _)
  diagnosisKeys := tidy.diagnosisKeys.sublist (List.filter_sublist.map _)
  actionKeys := tidy.actionKeys.sublist (List.filter_sublist.map _)
  deliveries := by
    intro d listed
    obtain ⟨row, other⟩ := List.mem_filter.mp listed
    obtain ⟨e, endpoint, v, event, key, joined⟩ := tidy.deliveries d row
    refine ⟨e, List.mem_filter.mpr ⟨endpoint, ?_⟩, v, event, key, joined⟩
    rw [key]
    exact other
  eventKeys := tidy.eventKeys
  attempts := by
    intro a listed
    obtain ⟨row, kept⟩ := List.mem_filter.mp listed
    obtain ⟨d, delivery, key⟩ := tidy.attempts a row
    refine ⟨d, List.mem_filter.mpr ⟨delivery, decide_eq_true (fun cascaded => ?_)⟩, key⟩
    exact of_decide_eq_true kept (key ▸ List.mem_map_of_mem
      (List.mem_filter.mpr ⟨delivery, decide_eq_true cascaded⟩))
  diagnoses := by
    intro g listed
    obtain ⟨row, other⟩ := List.mem_filter.mp listed
    obtain ⟨e, endpoint, key⟩ := tidy.diagnoses g row
    refine ⟨e, List.mem_filter.mpr ⟨endpoint, ?_⟩, key⟩
    rw [key]
    exact other
  actions := by
    intro a listed
    obtain ⟨row, kept⟩ := List.mem_filter.mp listed
    obtain ⟨g, diagnosis, key, same⟩ := tidy.actions a row
    refine ⟨g, List.mem_filter.mpr ⟨diagnosis, ?_⟩, key, same⟩
    rw [same]
    exact decide_eq_true (of_decide_eq_true kept).1

end Tidy

/-- What a request draws is unused, and the ids of one request differ. -/
structure Draws.Fresh (draws : Draws) (s : Store) : Prop where
  unused : ∀ n, Unused s (draws.fresh n)
  distinct : ∀ i ≤ s.db.endpoints.length, ∀ j ≤ s.db.endpoints.length,
    draws.fresh i = draws.fresh j → i = j

section Requests

variable {s : Store} {t : Uuid} {draws : Draws} {streamShards : Nat}

theorem tidy_commitRequeued (tidy : Tidy s.db) (rows : List Delivery) :
    Tidy (commitRequeued s rows).db := by
  unfold commitRequeued
  induction rows generalizing s with
  | nil => exact tidy
  | cons row rest ih => exact ih (tidy.updateDelivery (fun _ => ⟨rfl, rfl, rfl⟩))

theorem tidy_requeueRows (tidy : Tidy s.db) (e : Endpoint) (rows : List Delivery) :
    Tidy (Replay.requeueRows streamShards s e rows).db := by
  unfold Replay.requeueRows
  split
  · exact tidy_commitRequeued tidy rows
  · rw [db_execAll]
    exact tidy_commitRequeued tidy rows

theorem tidy_decide (tidy : Tidy s.db) (a : AgentAction) (clock : ℚ) :
    Tidy (Approve.decide s a clock).db := tidy.updateAction (fun _ => ⟨rfl, rfl, rfl⟩)

theorem tidy_paused (tidy : Tidy s.db) (e : Endpoint) (a : AgentAction) (clock : ℚ) :
    Tidy (Approve.paused s e a clock).db := by
  unfold Approve.paused
  split
  · exact tidy_decide tidy a clock
  · exact tidy_decide (s := s.setEndpointStatus e.id .paused)
      (tidy.updateEndpoint (fun _ => ⟨rfl, rfl⟩)) a clock

theorem tidy_approved (tidy : Tidy s.db) (e : Endpoint) (a : AgentAction) (clock : ℚ) :
    Tidy (Approve.result streamShards clock s e a).db := by
  have committed := tidy_decide (tidy_commitRequeued tidy (s.db.dead e.id)) a clock
  unfold Approve.result
  dsimp only
  split
  · exact committed
  · rw [db_execAll]
    exact committed

theorem length_fanOut (db : Db) (t : Uuid) (eventType : String) :
    (Ingest.fanOut db t eventType).length ≤ db.endpoints.length :=
  (List.length_filter_le _ _).trans (List.length_filter_le _ _)

theorem tidy_ingested (tidy : Tidy s.db) (fresh : draws.Fresh s) (body : EventCreate) :
    Tidy (Ingest.served streamShards draws.fresh s t body).1.db := by
  cases known : body.idempotencyKey.bind (s.db.existingByIdempotencyKey t) with
  | some existing =>
    unfold Ingest.served
    rw [known]
    exact tidy
  | none =>
    rw [served_new known, db_execAll]
    refine tidy.addEvent (fresh.unused 0).event ?_ (fun d listed stored => ?_) (fun d listed => ?_)
    · have ids : (rowsOf draws.fresh (Ingest.fanOut s.db t body.eventType)).map Delivery.id =
          (drawn draws.fresh (Ingest.fanOut s.db t body.eventType).length).tail :=
        Ingest.map_id_newDeliveries (by simp [drawn])
      rw [ids]
      have bound := length_fanOut s.db t body.eventType
      refine List.Nodup.map_on (fun i hi j hj same => ?_) List.nodup_range
      rw [List.mem_range] at hi hj
      have := fresh.distinct (i + 1) (by omega) (j + 1) (by omega) same
      omega
    · obtain ⟨n, drawn⟩ := rowsOf_drawn (List.mem_map_of_mem listed)
      exact (fresh.unused (n + 1)).delivery (drawn ▸ stored)
    · exact ⟨(Ingest.mem_newDeliveries listed).1, rowsOf_owned listed⟩

/-- Every request keeps the tables tidy. -/
theorem tidy_serve (orders : Orders) (tidy : Tidy s.db) (fresh : draws.Fresh s)
    (request : ApiRequest) :
    Tidy (serve orders draws t s streamShards request).1.db := by
  cases request with
  | createEndpoint url ordering types => exact tidy.addEndpoint (fresh.unused 0).endpoint
  | listEndpoints | getEvent _ | listDeliveries _ _ _ _ | listAttempts _ | listDlq _ _ _
  | listDiagnoses _ _ _ => exact tidy
  | getEndpoint endpointId | getBreaker endpointId | resetBreaker endpointId =>
    exact onEndpoint_cases (P := fun r => Tidy r.1.db) tidy (fun _ _ => tidy)
  | getDiagnosis diagnosisId | listActions diagnosisId =>
    exact onDiagnosis_cases (P := fun r => Tidy r.1.db) tidy (fun _ _ => tidy)
  | patchEndpoint endpointId url status types =>
    exact onEndpoint_cases (P := fun r => Tidy r.1.db) tidy (fun _ _ =>
      tidy.updateEndpoint (fun _ => ⟨rfl, rfl⟩))
  | deleteEndpoint endpointId =>
    exact onEndpoint_cases (P := fun r => Tidy r.1.db) tidy (fun e _ => tidy.deleted e.id)
  | ingest body => exact tidy_ingested tidy fresh body
  | replay body =>
    change Tidy (Replay.served streamShards s t body).1.db
    unfold Replay.served
    split
    · split
      · exact tidy
      · exact tidy_requeueRows tidy _ _
    · exact tidy
  | acknowledge diagnosisId =>
    exact onDiagnosis_cases (P := fun r => Tidy r.1.db) tidy (fun _ _ =>
      tidy.updateDiagnosis (fun _ => ⟨rfl, rfl⟩))
  | approve actionId =>
    change Tidy (Approve.served streamShards draws.clock s t actionId).1.db
    unfold Approve.served
    split
    · exact tidy
    · split
      · split
        · exact tidy
        · rename_i a _ _ _ e _
          cases a.action with
          | pauseEndpoint => exact tidy_paused tidy e a draws.clock
          | replayDlq => exact tidy_approved tidy e a draws.clock
      · exact tidy
  | reject actionId =>
    change Tidy (Reject.served draws.clock s t actionId).1.db
    unfold Reject.served
    split
    · exact tidy
    · split
      · exact tidy.updateAction (fun _ => ⟨rfl, rfl, rfl⟩)
      · exact tidy

end Requests

end Relay.Api
