import Relay.Api.Tidy
import Relay.Properties.AgentFrame

/-!
# No tenant sees or touches another's part

Every request of a tenant leaves the parts of the others as they are, and what it
answers and makes of the tenant's own part depends on that part only.
-/

namespace Relay.Api

open CircuitBreaker Enqueue

/-! The part of the tenant -/

/-- Two answers that the tenant cannot tell apart. -/
structure Alike (t : Uuid) (r₁ r₂ : Store × Response) : Prop where
  response : r₁.2 = r₂.2
  part : partOf t r₁.1 = partOf t r₂.1

section Own

variable {s₁ s₂ : Store} {t id : Uuid} {orders : Orders} {draws : Draws} {streamShards : Nat}

theorem onEndpoint_alike {f₁ f₂ : Endpoint → Store × Response}
    (agree : partOf t s₁ = partOf t s₂)
    (found : ∀ e, ownedEndpoint s₁.db t id = some e → ownedEndpoint s₂.db t id = some e →
      Alike t (f₁ e) (f₂ e)) :
    Alike t (onEndpoint t s₁ id f₁) (onEndpoint t s₂ id f₂) := by
  have same : ownedEndpoint s₁.db t id = ownedEndpoint s₂.db t id := by
    rw [ownedEndpoint_seen, ownedEndpoint_seen, agree]
  unfold onEndpoint
  cases selected : ownedEndpoint s₁.db t id with
  | none =>
    rw [← same, selected]
    exact ⟨rfl, agree⟩
  | some e =>
    have selected' := same.symm.trans selected
    rw [selected']
    exact found e selected selected'

theorem onDiagnosis_alike {f₁ f₂ : Diagnosis → Store × Response}
    (agree : partOf t s₁ = partOf t s₂)
    (found : ∀ g, ownedDiagnosis s₁.db t id = some g →
      ownedDiagnosis s₂.db t id = some g →
      Alike t (f₁ g) (f₂ g)) :
    Alike t (onDiagnosis t s₁ id f₁) (onDiagnosis t s₂ id f₂) := by
  have same : ownedDiagnosis s₁.db t id = ownedDiagnosis s₂.db t id := by
    rw [ownedDiagnosis_seen, ownedDiagnosis_seen, agree]
  unfold onDiagnosis
  cases selected : ownedDiagnosis s₁.db t id with
  | none =>
    rw [← same, selected]
    exact ⟨rfl, agree⟩
  | some g =>
    have selected' := same.symm.trans selected
    rw [selected']
    exact found g selected selected'

theorem narrow_agree (agree : partOf t s₁ = partOf t s₂) (endpointId : Option Uuid) :
    narrow s₁.db t endpointId = narrow s₂.db t endpointId := by
  rw [narrow_seen, narrow_seen, agree]

theorem endpoint_agree (tidy₁ : Tidy s₁.db) (tidy₂ : Tidy s₂.db)
    (agree : partOf t s₁ = partOf t s₂) (mine : owns s₁.db t id = true) :
    s₁.db.endpoint id = s₂.db.endpoint id := by
  rw [endpoint_seen tidy₁ mine,
    endpoint_seen tidy₂ ((owns_congr agree id).symm.trans mine), agree]

theorem dead_agree (agree : partOf t s₁ = partOf t s₂) (mine : owns s₁.db t id = true) :
    s₁.db.dead id = s₂.db.dead id := by
  rw [dead_seen mine, dead_seen ((owns_congr agree id).symm.trans mine), agree]

theorem selected_agree (agree : partOf t s₁ = partOf t s₂) {body : ReplayRequest}
    (mine : owns s₁.db t body.endpointId = true) :
    Replay.selected s₁.db body = Replay.selected s₂.db body := by
  unfold Replay.selected
  rw [dead_agree agree mine]

theorem fanOut_agree (agree : partOf t s₁ = partOf t s₂) (eventType : String) :
    Ingest.fanOut s₁.db t eventType = Ingest.fanOut s₂.db t eventType := by
  rw [fanOut_seen, fanOut_seen, agree]

theorem deliveries_agree (agree : partOf t s₁ = partOf t s₂) {test : Delivery → Bool}
    (mine : ∀ d, test d = true → owns s₁.db t d.endpointId = true) :
    s₁.db.deliveries.filter test = s₂.db.deliveries.filter test := by
  rw [deliveries_seen s₁ (fun d _ passes => mine d passes),
    deliveries_seen s₂ (fun d _ passes =>
    (owns_congr agree d.endpointId).symm.trans (mine d passes)), agree]

theorem diagnoses_agree (agree : partOf t s₁ = partOf t s₂) {test : Diagnosis → Bool}
    (mine : ∀ g, test g = true → owns s₁.db t g.endpointId = true) :
    s₁.db.diagnoses.filter test = s₂.db.diagnoses.filter test := by
  rw [diagnoses_seen s₁ (fun g _ passes => mine g passes), diagnoses_seen s₂ (fun g _ passes =>
    (owns_congr agree g.endpointId).symm.trans (mine g passes)), agree]

/-- A list of what belongs to the selected endpoints. -/
theorem narrowed_agree (agree : partOf t s₁ = partOf t s₂) {endpointId : Option Uuid}
    {f₁ f₂ : List Uuid → Response}
    (bodies : ∀ owned, narrow s₁.db t endpointId = .ok owned → f₁ owned = f₂ owned) :
    Response.ofExcept f₁ (narrow s₁.db t endpointId) =
      Response.ofExcept f₂ (narrow s₂.db t endpointId) := by
  rw [← narrow_agree agree]
  cases narrowed : narrow s₁.db t endpointId with
  | error e => rfl
  | ok owned => exact bodies owned narrowed

theorem selectDeliveries_agree (agree : partOf t s₁ = partOf t s₂) (endpointId : Option Uuid)
    (status : Option DeliveryStatus) (limit offset : Nat) :
    selectDeliveries orders t s₁ endpointId status limit offset =
      selectDeliveries orders t s₂ endpointId status limit offset := by
  refine narrowed_agree agree fun owned narrowed => ?_
  rw [deliveries_agree agree (fun d passes =>
    narrow_owned narrowed _ (of_decide_eq_true passes).1)]

theorem listDlq_agree (agree : partOf t s₁ = partOf t s₂) (endpointId : Option Uuid)
    (limit offset : Nat) :
    listDlq orders t s₁ endpointId limit offset = listDlq orders t s₂ endpointId
      limit offset := by
  refine narrowed_agree agree fun owned narrowed => ?_
  rw [deliveries_agree agree (fun d passes =>
    narrow_owned narrowed _ (of_decide_eq_true passes).1)]

theorem listDiagnoses_agree (agree : partOf t s₁ = partOf t s₂) (endpointId : Option Uuid)
    (status : Option String) (limit : Nat) :
    listDiagnoses orders t s₁ endpointId status limit =
      listDiagnoses orders t s₂ endpointId status limit := by
  refine narrowed_agree agree fun owned narrowed => ?_
  have rows : selectDiagnoses orders s₁ owned = selectDiagnoses orders s₂ owned := by
    funext status limit
    unfold selectDiagnoses
    rw [diagnoses_agree agree (fun g passes =>
      narrow_owned narrowed _ (of_decide_eq_true passes).1)]
  cases status <;> simp only [rows]

theorem getEvent_agree (tidy₁ : Tidy s₁.db) (tidy₂ : Tidy s₂.db)
    (agree : partOf t s₁ = partOf t s₂) (eventId : Uuid) :
    getEvent t s₁ eventId = getEvent t s₂ eventId := by
  have same : ownedEvent s₁.db t eventId = ownedEvent s₂.db t eventId := by
    rw [ownedEvent_seen, ownedEvent_seen, agree]
  unfold getEvent
  cases selected : ownedEvent s₁.db t eventId with
  | none => rw [← same, selected]
  | some v =>
    have selected' := same.symm.trans selected
    have spec {db : Db} (found : ownedEvent db t eventId = some v) :
        v ∈ db.events ∧ v.tenantId = t :=
      (Table.find_spec (P := fun v : Event => v.id = eventId ∧ v.tenantId = t) found).imp_right
        And.right
    rw [selected']
    dsimp only
    rw [eventDeliveries_seen tidy₁ (spec selected).1 (spec selected).2,
      eventDeliveries_seen tidy₂ (spec selected').1 (spec selected').2, agree]

theorem listAttempts_agree (agree : partOf t s₁ = partOf t s₂) (deliveryId : Uuid) :
    listAttempts t s₁ deliveryId = listAttempts t s₂ deliveryId := by
  have same : ownedDelivery s₁.db t deliveryId = ownedDelivery s₂.db t deliveryId := by
    rw [ownedDelivery_seen, ownedDelivery_seen, agree]
  unfold listAttempts
  cases selected : ownedDelivery s₁.db t deliveryId with
  | none => rw [← same, selected]
  | some d =>
    have selected' := same.symm.trans selected
    have seen {s : Store} (found : ownedDelivery s.db t deliveryId = some d) :
        s.db.attempts.filter (fun a => a.deliveryId = deliveryId) =
          (partOf t s).attempts.filter (fun a => a.deliveryId = deliveryId) := by
      obtain ⟨stored, key, mine⟩ := ownedDelivery_spec found
      rw [← key]
      exact deliveryAttempts_seen stored mine
    rw [selected']
    dsimp only
    rw [seen selected, seen selected', agree]

theorem replayDlq_alike (tidy₁ : Tidy s₁.db) (tidy₂ : Tidy s₂.db)
    (agree : partOf t s₁ = partOf t s₂) (body : ReplayRequest) :
    Alike t (replayDlq t s₁ streamShards body) (replayDlq t s₂ streamShards body) := by
  have ids : s₁.db.tenantEndpointIds t = s₂.db.tenantEndpointIds t := by
    rw [tenantEndpointIds_partOf, tenantEndpointIds_partOf, agree]
  unfold replayDlq Replay.served
  by_cases mine₁ : body.endpointId ∈ s₁.db.tenantEndpointIds t
  · have mine₂ : body.endpointId ∈ s₂.db.tenantEndpointIds t := ids ▸ mine₁
    have owned₁ := mem_tenantEndpointIds.mp mine₁
    have owned₂ := mem_tenantEndpointIds.mp mine₂
    rw [if_pos mine₁, if_pos mine₂, ← endpoint_agree tidy₁ tidy₂ agree owned₁,
      ← selected_agree agree owned₁]
    cases found : s₁.db.endpoint body.endpointId with
    | none => exact ⟨rfl, agree⟩
    | some e =>
      have key : e.id = body.endpointId := Db.endpoint_id found
      refine ⟨rfl, ?_⟩
      change partOf t (Replay.requeueRows streamShards s₁ e _) =
        partOf t (Replay.requeueRows streamShards s₂ e _)
      rw [part_requeueRows (key ▸ owned₁) (selected_stored key), agree,
        part_requeueRows (key ▸ owned₂)]
      rw [selected_agree agree owned₁]
      exact selected_stored key
  · have mine₂ : body.endpointId ∉ s₂.db.tenantEndpointIds t := ids ▸ mine₁
    rw [if_neg mine₁, if_neg mine₂]
    exact ⟨rfl, agree⟩

theorem approveAction_alike (tidy₁ : Tidy s₁.db) (tidy₂ : Tidy s₂.db)
    (agree : partOf t s₁ = partOf t s₂) (actionId : Uuid) :
    Alike t (approveAction draws t s₁ streamShards actionId)
      (approveAction draws t s₂ streamShards actionId) := by
  have same : ownedAction s₁.db t actionId = ownedAction s₂.db t actionId := by
    rw [ownedAction_seen tidy₁, ownedAction_seen tidy₂, agree]
  unfold approveAction Approve.served
  rw [← same]
  cases selected : ownedAction s₁.db t actionId with
  | none => exact ⟨rfl, agree⟩
  | some a =>
    obtain ⟨_, _, mine₁⟩ := ownedAction_spec selected
    obtain ⟨_, _, mine₂⟩ := ownedAction_spec (same.symm.trans selected)
    dsimp only
    by_cases pending : a.status = .pending
    · rw [if_pos pending, if_pos pending, ← endpoint_agree tidy₁ tidy₂ agree mine₁]
      cases found : s₁.db.endpoint a.endpointId with
      | none => exact ⟨rfl, agree⟩
      | some e =>
        have key : e.id = a.endpointId := Db.endpoint_id found
        refine ⟨rfl, ?_⟩
        cases kind : a.action with
        | pauseEndpoint =>
          change partOf t (Approve.paused s₁ e a draws.clock) =
            partOf t (Approve.paused s₂ e a draws.clock)
          rw [part_paused, part_paused, agree]
        | replayDlq =>
          change partOf t (Approve.result streamShards draws.clock s₁ e a) =
            partOf t (Approve.result streamShards draws.clock s₂ e a)
          rw [part_approved (key ▸ mine₁), part_approved (key ▸ mine₂),
            dead_agree agree (key ▸ mine₁), agree]
    · rw [if_neg pending, if_neg pending]
      exact ⟨rfl, agree⟩

theorem rejectAction_alike (tidy₁ : Tidy s₁.db) (tidy₂ : Tidy s₂.db)
    (agree : partOf t s₁ = partOf t s₂) (actionId : Uuid) :
    Alike t (rejectAction draws t s₁ actionId) (rejectAction draws t s₂ actionId) := by
  have same : ownedAction s₁.db t actionId = ownedAction s₂.db t actionId := by
    rw [ownedAction_seen tidy₁, ownedAction_seen tidy₂, agree]
  unfold rejectAction Reject.served
  rw [← same]
  cases selected : ownedAction s₁.db t actionId with
  | none => exact ⟨rfl, agree⟩
  | some a =>
    dsimp only
    by_cases pending : a.status = .pending
    · rw [if_pos pending, if_pos pending]
      refine ⟨rfl, ?_⟩
      change partOf t (Reject.decide s₁ a draws.clock) = partOf t
        (Reject.decide s₂ a draws.clock)
      rw [part_reject, part_reject, agree]
    · rw [if_neg pending, if_neg pending]
      exact ⟨rfl, agree⟩

theorem ingestEvent_alike (tidy₁ : Tidy s₁.db) (tidy₂ : Tidy s₂.db)
    (unused₁ : ∀ n, Unused s₁ (draws.fresh n))
    (unused₂ : ∀ n, Unused s₂ (draws.fresh n))
    (agree : partOf t s₁ = partOf t s₂) (body : EventCreate) :
    Alike t (ingestEvent draws t s₁ streamShards body)
      (ingestEvent draws t s₂ streamShards body) := by
  have same : body.idempotencyKey.bind (s₁.db.existingByIdempotencyKey t) =
      body.idempotencyKey.bind (s₂.db.existingByIdempotencyKey t) := by
    congr 1
    funext key
    rw [existing_seen, existing_seen, agree]
  unfold ingestEvent
  cases known : body.idempotencyKey.bind (s₁.db.existingByIdempotencyKey t) with
  | some existing =>
    unfold Ingest.served
    rw [← same, known]
    exact ⟨rfl, agree⟩
  | none =>
    have known' := same.symm.trans known
    constructor
    · rw [served_new known, served_new known']
    · change partOf t (Ingest.served streamShards draws.fresh s₁ t body).1 =
        partOf t (Ingest.served streamShards draws.fresh s₂ t body).1
      rw [part_ingested tidy₁ unused₁ known, part_ingested tidy₂ unused₂ known', agree,
        fanOut_agree agree]

theorem createEndpoint_alike (tidy₁ : Tidy s₁.db) (tidy₂ : Tidy s₂.db)
    (unused₁ : Unused s₁ (draws.fresh 0)) (unused₂ : Unused s₂ (draws.fresh 0))
    (agree : partOf t s₁ = partOf t s₂) (url : String) (ordering : Ordering)
    (types : List String) :
    Alike t (createEndpoint draws t s₁ url ordering types)
      (createEndpoint draws t s₂ url ordering types) := by
  let e : Endpoint := {
    id := draws.fresh 0
    tenantId := t
    url := url
    signingSecret := draws.secret
    ordering := ordering
    eventTypes := types }
  refine ⟨rfl, ?_⟩
  change partOf t (addEndpoint s₁ e) = partOf t (addEndpoint s₂ e)
  rw [part_addEndpoint (unused₁.silent tidy₁),
    part_addEndpoint (unused₂.silent tidy₂), agree]

/-- What a request answers and makes of the tenant's part depends on that part. -/
theorem serve_alike (orders : Orders) (tidy₁ : Tidy s₁.db) (tidy₂ : Tidy s₂.db)
    (unused₁ : ∀ n, Unused s₁ (draws.fresh n))
    (unused₂ : ∀ n, Unused s₂ (draws.fresh n))
    (agree : partOf t s₁ = partOf t s₂) (request : ApiRequest) :
    Alike t (serve orders draws t s₁ streamShards request)
      (serve orders draws t s₂ streamShards request) := by
  cases request with
  | createEndpoint url ordering types =>
    exact createEndpoint_alike tidy₁ tidy₂ (unused₁ 0) (unused₂ 0) agree url ordering types
  | listEndpoints =>
    refine ⟨?_, agree⟩
    simp only [serve, listEndpoints]
    rw [endpoints_seen, endpoints_seen, agree]
  | getEndpoint endpointId => exact onEndpoint_alike agree (fun e _ _ => ⟨rfl, agree⟩)
  | patchEndpoint endpointId url status types =>
    refine onEndpoint_alike agree (fun e _ _ => ⟨rfl, ?_⟩)
    have part (s : Store) : partOf t (updateEndpoint s e.id
        (fun row => World.patched row url status types)) = (partOf t s).updateEndpoint e.id
          (fun row => World.patched row url status types) :=
      part_updateEndpoint (fun _ => ⟨rfl, rfl⟩)
    exact (part s₁).trans (by rw [agree]; exact (part s₂).symm)
  | getBreaker endpointId =>
    refine onEndpoint_alike agree (fun e found₁ found₂ => ⟨?_, agree⟩)
    dsimp only
    rw [breaker_seen (ownedEndpoint_owns found₁),
      breaker_seen (ownedEndpoint_owns found₂), agree]
  | resetBreaker endpointId =>
    refine onEndpoint_alike agree (fun e found₁ found₂ => ⟨rfl, ?_⟩)
    dsimp only
    rw [part_resetBreaker (ownedEndpoint_owns found₁),
      part_resetBreaker (ownedEndpoint_owns found₂),
      agree]
  | deleteEndpoint endpointId =>
    refine onEndpoint_alike agree (fun e _ _ => ⟨rfl, ?_⟩)
    change partOf t (deleteRow s₁ e.id) = partOf t (deleteRow s₂ e.id)
    rw [part_deleteRow tidy₁, part_deleteRow tidy₂, agree]
  | ingest body => exact ingestEvent_alike tidy₁ tidy₂ unused₁ unused₂ agree body
  | getEvent eventId => exact ⟨getEvent_agree tidy₁ tidy₂ agree eventId, agree⟩
  | listDeliveries endpointId status limit offset =>
    refine ⟨?_, agree⟩
    simp only [serve, listDeliveries, selectDeliveries_agree agree]
  | listAttempts deliveryId => exact ⟨listAttempts_agree agree deliveryId, agree⟩
  | listDlq endpointId limit offset =>
    exact ⟨listDlq_agree agree endpointId limit offset, agree⟩
  | replay body => exact replayDlq_alike tidy₁ tidy₂ agree body
  | listDiagnoses endpointId status limit =>
    exact ⟨listDiagnoses_agree agree endpointId status limit, agree⟩
  | getDiagnosis diagnosisId => exact onDiagnosis_alike agree (fun g _ _ => ⟨rfl, agree⟩)
  | acknowledge diagnosisId =>
    refine onDiagnosis_alike agree (fun g _ _ => ⟨rfl, ?_⟩)
    have part (s : Store) : partOf t (updateDiagnosis s g.id
        (fun row => { row with status := .acknowledged })) = { partOf t s with
          diagnoses := Table.update Diagnosis.id (partOf t s).diagnoses g.id
            (fun row => { row with status := .acknowledged }) } :=
      part_updateDiagnosis (fun _ => rfl)
    exact (part s₁).trans (by rw [agree]; exact (part s₂).symm)
  | listActions diagnosisId =>
    refine onDiagnosis_alike agree (fun g found₁ found₂ => ⟨?_, agree⟩)
    obtain ⟨stored₁, key, mine₁⟩ := ownedDiagnosis_spec found₁
    obtain ⟨stored₂, _, mine₂⟩ := ownedDiagnosis_spec found₂
    simp only [← key]
    rw [diagnosisActions_seen tidy₁ stored₁ mine₁,
      diagnosisActions_seen tidy₂ stored₂ mine₂, agree]
  | approve actionId => exact approveAction_alike tidy₁ tidy₂ agree actionId
  | reject actionId => exact rejectAction_alike tidy₁ tidy₂ agree actionId

end Own

/-! States that the program reaches -/

/-- What is written to the database: by requests, by the commits of the workers and
of the agent. The agent proposes for the endpoint of its own diagnosis. -/
inductive Reached (orders : Orders) (streamShards : Nat) : Store → Prop
  | start {s : Store} (empty : s.db = {}) : Reached orders streamShards s
  | request {s : Store} {draws : Draws} (reached : Reached orders streamShards s)
      (fresh : draws.Fresh s) (tenantId : Uuid) (request : ApiRequest) :
      Reached orders streamShards (serve orders draws tenantId s streamShards request).1
  | tenant {s : Store} (reached : Reached orders streamShards s) (tenant : Tenant) :
      Reached orders streamShards { s with db := { s.db with tenants := s.db.tenants ++ [tenant] } }
  | redis {s s' : Store} (reached : Reached orders streamShards s) (same : s'.db = s.db) :
      Reached orders streamShards s'
  | commit {s : Store} (reached : Reached orders streamShards s) (stage : Stage)
      (loaded current : Delivery) : Reached orders streamShards
        (s.commitDelivery stage loaded current)
  | attempt {s : Store} (reached : Reached orders streamShards s) {a : DeliveryAttempt}
      (stored : (s.db.delivery a.deliveryId).isSome) : Reached orders streamShards (s.addAttempt a)
  | disable {s : Store} (reached : Reached orders streamShards s) (endpointId : Uuid) :
      Reached orders streamShards (s.setEndpointStatus endpointId .disabled)
  | diagnose {s : Store} (reached : Reached orders streamShards s) {row : Diagnosis} {db : Db}
      (written : Agent.addDiagnosis row s.db = .ok db) :
      Reached orders streamShards { s with db := db }
  | conclude {s : Store} (reached : Reached orders streamShards s) {env : Agent.Surroundings}
      {subject : Agent.Subject} {state : Agent.AgentState} {db : Db}
      (written : Agent.writeDiagnosis env subject state s.db = .ok db) :
      Reached orders streamShards { s with db := db }
  | propose {s : Store} (reached : Reached orders streamShards s) {subject : Agent.Subject}
      {id : Uuid} {kind : ActionKind} {reason : Json} {db : Db}
      (own : ∀ g ∈ s.db.diagnosis subject.diagnosisId, g.endpointId = subject.endpointId)
      (written : Agent.writeAction subject id kind reason s.db = .ok db) :
      Reached orders streamShards { s with db := db }

theorem get_isSome {R : Type} {key : R → Uuid} {rows : List R} {id : Uuid}
    (there : (Table.get key rows id).isSome = true) : ∃ r ∈ rows, key r = id := by
  obtain ⟨r, found⟩ := Option.isSome_iff_exists.mp there
  exact ⟨r, Table.get_mem found, Table.get_key found⟩

theorem tidy_diagnose {db db' : Db} {row : Diagnosis} (tidy : Tidy db)
    (written : Agent.addDiagnosis row db = .ok db') : Tidy db' := by
  unfold Agent.addDiagnosis at written
  split at written
  · rename_i keys
    cases written
    exact tidy.addDiagnosis (Table.get_eq_none.mp (Option.isNone_iff_eq_none.mp keys.2))
      (get_isSome keys.1)
  · cases written

theorem tidy_propose {db db' : Db} {subject : Agent.Subject} {id : Uuid} {kind : ActionKind}
    {reason : Json} (tidy : Tidy db)
    (own : ∀ g ∈ db.diagnosis subject.diagnosisId, g.endpointId = subject.endpointId)
    (written : Agent.writeAction subject id kind reason db = .ok db') : Tidy db' := by
  unfold Agent.writeAction at written
  cases text : Agent.asText reason with
  | error e =>
    rw [text] at written
    cases written
  | ok text' =>
    rw [text] at written
    change Agent.addAction (Agent.proposal subject id kind text') db = .ok db' at written
    unfold Agent.addAction at written
    split at written
    · rename_i keys
      obtain ⟨g, found⟩ := Option.isSome_iff_exists.mp keys.1
      cases written
      exact tidy.addAction (Table.get_eq_none.mp (Option.isNone_iff_eq_none.mp keys.2.2))
        ⟨g, Table.get_mem found, Table.get_key found, own g found⟩
    · cases written

/-- Tables are tidy in every state that the program reaches. -/
theorem Reached.tidy {orders : Orders} {streamShards : Nat} {s : Store}
    (reached : Reached orders streamShards s) : Tidy s.db := by
  induction reached with
  | start empty =>
    rw [empty]
    constructor <;> simp
  | request reached fresh tenantId request ih => exact tidy_serve orders ih fresh request
  | tenant reached tenant ih => exact { ih with }
  | redis reached same ih => exact same ▸ ih
  | commit reached stage loaded current ih => exact ih.updateDelivery (fun _ => ⟨rfl, rfl, rfl⟩)
  | attempt reached stored ih => exact ih.addAttempt (get_isSome stored)
  | disable reached endpointId ih => exact ih.updateEndpoint (fun _ => ⟨rfl, rfl⟩)
  | diagnose reached written ih => exact tidy_diagnose ih written
  | conclude reached written ih =>
    obtain ⟨row, rfl⟩ := Agent.writeDiagnosis_ok written
    exact ih.updateDiagnosis (fun _ => ⟨rfl, rfl⟩)
  | propose reached own written ih => exact tidy_propose ih own written

/-- No request writes to tenants, locks, buckets or slots, and to a stream it only appends. -/
structure Untouched (s s' : Store) : Prop where
  tenants : s'.db.tenants = s.db.tenants
  locks : s'.locks = s.locks
  buckets : s'.buckets = s.buckets
  inflight : s'.inflight = s.inflight
  entries : ∀ n, (s.queues.streams n).entries <+: (s'.queues.streams n).entries
  groups : ∀ n, (s'.queues.streams n).lastDelivered = (s.queues.streams n).lastDelivered ∧
    (s'.queues.streams n).pending = (s.queues.streams n).pending

section Frame

variable {s s' s'' : Store} {t : Uuid} {draws : Draws} {streamShards : Nat}

/-- Writes to the database that leave the tenants, and to lists and breakers. -/
theorem Untouched.of_queues (tenants : s'.db.tenants = s.db.tenants) (locks : s'.locks = s.locks)
    (buckets : s'.buckets = s.buckets) (inflight : s'.inflight = s.inflight)
    (queues : s'.queues.streams = s.queues.streams) : Untouched s s' where
  tenants := tenants
  locks := locks
  buckets := buckets
  inflight := inflight
  entries n := by simp only [queues, List.prefix_refl]
  groups n := by rw [queues]; exact ⟨rfl, rfl⟩

theorem Untouched.refl (s : Store) : Untouched s s := .of_queues rfl rfl rfl rfl rfl

theorem Untouched.trans (first : Untouched s s') (second : Untouched s' s'') : Untouched s s'' where
  tenants := second.tenants.trans first.tenants
  locks := second.locks.trans first.locks
  buckets := second.buckets.trans first.buckets
  inflight := second.inflight.trans first.inflight
  entries n := (first.entries n).trans (second.entries n)
  groups n := ⟨(second.groups n).1.trans (first.groups n).1,
    (second.groups n).2.trans (first.groups n).2⟩

theorem untouched_exec (source : Source) (s : Store) (c : Command) :
    Untouched s (c.exec streamShards source s) := by
  cases c with
  | zrem m => exact .of_queues rfl rfl rfl rfl rfl
  | rpush endpointId deliveryId => exact .of_queues rfl rfl rfl rfl rfl
  | xadd f =>
    have stream (n : Nat) : ((Command.xadd f).exec streamShards source s).queues.streams n =
        Function.update s.queues.streams (shardFor streamShards f.endpointId)
          ((s.queues.streams (shardFor streamShards f.endpointId)).xadd f) n := rfl
    constructor
    · rfl
    · rfl
    · rfl
    · rfl
    · intro n
      rw [stream]
      by_cases here : n = shardFor streamShards f.endpointId
      · subst here
        rw [Function.update_self]
        exact List.prefix_append _ _
      · simp only [Function.update_of_ne here, List.prefix_refl]
    · intro n
      rw [stream]
      by_cases here : n = shardFor streamShards f.endpointId
      · subst here
        rw [Function.update_self]
        exact ⟨rfl, rfl⟩
      · rw [Function.update_of_ne here]
        exact ⟨rfl, rfl⟩

theorem untouched_execAll (source : Source) (s : Store) (commands : List Command) :
    Untouched s (execAll streamShards source s commands) := by
  unfold execAll
  induction commands generalizing s with
  | nil => exact .refl s
  | cons c rest ih => exact (untouched_exec source s c).trans (ih _)

theorem untouched_commitRequeued (s : Store) (rows : List Delivery) :
    Untouched s (commitRequeued s rows) := by
  obtain ⟨deliveries, log, committed⟩ := commitRequeued_frame s rows
  rw [committed]
  exact .of_queues rfl rfl rfl rfl rfl

theorem untouched_requeueRows (e : Endpoint) (rows : List Delivery) :
    Untouched s (Replay.requeueRows streamShards s e rows) := by
  have committed := untouched_commitRequeued s rows
  unfold Replay.requeueRows
  split
  · exact committed
  · refine Untouched.trans (committed.trans ?_) (untouched_execAll _ _ _)
    exact .of_queues rfl rfl rfl rfl rfl

theorem untouched_approved (e : Endpoint) (a : AgentAction) (clock : ℚ) :
    Untouched s (Approve.result streamShards clock s e a) := by
  have committed : Untouched s (Approve.decide (commitRequeued s (s.db.dead e.id)) a clock) :=
    (untouched_commitRequeued s (s.db.dead e.id)).trans (.of_queues rfl rfl rfl rfl rfl)
  unfold Approve.result
  dsimp only
  split
  · exact committed
  · refine Untouched.trans (committed.trans ?_) (untouched_execAll _ _ _)
    exact .of_queues rfl rfl rfl rfl rfl

theorem untouched_paused (e : Endpoint) (a : AgentAction) (clock : ℚ) :
    Untouched s (Approve.paused s e a clock) := by
  unfold Approve.paused
  split <;> exact .of_queues rfl rfl rfl rfl rfl

theorem untouched_ingested (fresh : Nat → Uuid) (body : EventCreate) :
    Untouched s (Ingest.served streamShards fresh s t body).1 := by
  cases known : body.idempotencyKey.bind (s.db.existingByIdempotencyKey t) with
  | some existing =>
    unfold Ingest.served
    rw [known]
    exact .refl s
  | none =>
    rw [served_new known]
    refine Untouched.trans ?_ (untouched_execAll .ingest _ _)
    exact .of_queues rfl rfl rfl rfl rfl

theorem serve_untouched (orders : Orders) (request : ApiRequest) :
    Untouched s (serve orders draws t s streamShards request).1 := by
  cases request with
  | createEndpoint url ordering types => exact .of_queues rfl rfl rfl rfl rfl
  | listEndpoints | getEvent _ | listDeliveries _ _ _ _ | listAttempts _ | listDlq _ _ _
  | listDiagnoses _ _ _ => exact .refl s
  | getEndpoint endpointId | patchEndpoint endpointId _ _ _ | getBreaker endpointId
  | resetBreaker endpointId | deleteEndpoint endpointId =>
    exact onEndpoint_cases (P := fun r => Untouched s r.1) (.refl s)
      (fun _ _ => .of_queues rfl rfl rfl rfl rfl)
  | getDiagnosis diagnosisId | acknowledge diagnosisId | listActions diagnosisId =>
    exact onDiagnosis_cases (P := fun r => Untouched s r.1) (.refl s)
      (fun _ _ => .of_queues rfl rfl rfl rfl rfl)
  | ingest body => exact untouched_ingested draws.fresh body
  | replay body =>
    change Untouched s (Replay.served streamShards s t body).1
    unfold Replay.served
    split
    · split
      · exact .refl s
      · exact untouched_requeueRows _ _
    · exact .refl s
  | approve actionId =>
    change Untouched s (Approve.served streamShards draws.clock s t actionId).1
    unfold Approve.served
    split
    · exact .refl s
    · split
      · split
        · exact .refl s
        · rename_i a _ _ _ e _
          cases a.action with
          | pauseEndpoint => exact untouched_paused e a draws.clock
          | replayDlq => exact untouched_approved e a draws.clock
      · exact .refl s
  | reject actionId =>
    change Untouched s (Reject.served draws.clock s t actionId).1
    unfold Reject.served
    split
    · exact .refl s
    · split <;> exact .of_queues rfl rfl rfl rfl rfl

end Frame

/-- A request of a tenant leaves the parts of all others as they are, and in two stores
that show the tenant the same it gives the same answer and makes the same of its part.
Tables are tidy in every state that the program reaches. -/
theorem tenant_noninterference (orders : Orders) (streamShards : Nat) {draws : Draws} {t : Uuid}
    {s₁ s₂ : Store} (tidy₁ : Tidy s₁.db) (tidy₂ : Tidy s₂.db)
    (unused₁ : ∀ n, Unused s₁ (draws.fresh n))
    (unused₂ : ∀ n, Unused s₂ (draws.fresh n))
    (agree : partOf t s₁ = partOf t s₂) (request : ApiRequest) :
    (∀ t', t' ≠ t → partOf t' (serve orders draws t s₁ streamShards request).1 =
      partOf t' s₁) ∧
      Untouched s₁ (serve orders draws t s₁ streamShards request).1 ∧
      (serve orders draws t s₁ streamShards request).2 =
        (serve orders draws t s₂ streamShards request).2 ∧
      partOf t (serve orders draws t s₁ streamShards request).1 =
        partOf t (serve orders draws t s₂ streamShards request).1 := by
  have alike : Alike t (serve orders draws t s₁ streamShards request)
      (serve orders draws t s₂ streamShards request) :=
    serve_alike orders tidy₁ tidy₂ unused₁ unused₂ agree request
  exact ⟨fun t' other => part_serve_other orders tidy₁ unused₁ other request,
    serve_untouched orders request, alike.response, alike.part⟩

/-! A tenant that names another's dead delivery in a replay -/

def ownRows : Db where
  endpoints := [{ id := 10, tenantId := 1 }]
  events := [⟨20, 1, "paid", "", none⟩]
  deliveries := [{ id := 30, eventId := 20, endpointId := 10, status := .dead, attemptCount := 7 }]

def bothRows : Db where
  endpoints := ownRows.endpoints ++ [{ id := 11, tenantId := 2 }]
  events := ownRows.events ++ [⟨21, 2, "paid", "", none⟩]
  deliveries := ownRows.deliveries ++
    [{ id := 31, eventId := 21, endpointId := 11, status := .dead, attemptCount := 7 }]

def storing (db : Db) : Store := { (World.initial (fun _ => 0)).store with db := db }

def unordered : Orders := ⟨id, id, id, id, id⟩

def drawing : Draws := ⟨fun _ => 40, "secret", 0⟩

def replayBoth : ApiRequest := .replay ⟨10, some [30, 31]⟩

theorem tenant_noninterference_replay :
    partOf 2 (serve unordered drawing 1 (storing bothRows) 8 replayBoth).1 =
        partOf 2 (storing bothRows) ∧
      (serve unordered drawing 1 (storing bothRows) 8 replayBoth).2 =
        (serve unordered drawing 1 (storing ownRows) 8 replayBoth).2 ∧
      (serve unordered drawing 1 (storing bothRows) 8 replayBoth).1.db.deliveries.map
        Delivery.status = [.pending, .dead] := by
  have unused (db : Db) (absent : 40 ∉ db.endpoints.map Endpoint.id ∧
      40 ∉ db.events.map Event.id ∧ 40 ∉ db.deliveries.map Delivery.id) (n : Nat) :
      Unused (storing db) (drawing.fresh n) :=
    ⟨absent.1, absent.2.1, absent.2.2, rfl, rfl, fun _ _ h => absurd h List.not_mem_nil,
      fun _ h => absurd h List.not_mem_nil⟩
  have agree : partOf 1 (storing bothRows) = partOf 1 (storing ownRows) :=
    Part.ext (by decide) (by decide) (by decide) rfl rfl rfl rfl
      (funext fun _ => (ite_self _).trans (ite_self _).symm) rfl
      (funext fun _ => (ite_self _).trans (ite_self _).symm)
  have tidy₁ : Tidy (storing bothRows).db := by constructor <;> decide
  have tidy₂ : Tidy (storing ownRows).db := by constructor <;> decide
  obtain ⟨others, _, response, _⟩ := tenant_noninterference unordered 8 tidy₁ tidy₂
    (unused bothRows (by decide)) (unused ownRows (by decide)) agree replayBoth
  exact ⟨others 2 (by decide), response, by decide +kernel⟩

end Relay.Api
