import Relay.Api.Reads

/-!
# What a request does to the parts of the tenants

Replays, decisions and ingestions are functions on the part of their tenant, and
no request does anything to the part of another.
-/

namespace Relay.Api

open CircuitBreaker Enqueue

/-! The endpoints that the commands of a request name -/

theorem Replay.commands_endpoint {streamShards : Nat} {ordering : Ordering}
    {rows : List Delivery} {c : Command}
    (listed : c ∈ Replay.commands streamShards ordering rows) :
    ∃ d ∈ rows, c.endpointId = d.endpointId := by
  obtain ⟨d, row, issued⟩ := List.mem_flatMap.mp listed
  refine ⟨d, row, ?_⟩
  rcases List.mem_cons.mp issued with rfl | later
  · rfl
  · rcases List.mem_append.mp later with first | second
    · split at first
      · rw [List.mem_singleton.mp first]
        rfl
      · cases first
    · rw [List.mem_singleton.mp second]
      rfl

theorem Approve.commands_endpoint {rows : List Delivery} {c : Command}
    (listed : c ∈ Approve.commands rows) : ∃ d ∈ rows, c.endpointId = d.endpointId := by
  obtain ⟨d, row, rfl⟩ := List.mem_map.mp listed
  exact ⟨d, row, rfl⟩

theorem Ingest.commands_endpoint {endpoints : List Endpoint} {rows : List Delivery} {c : Command}
    (listed : c ∈ Ingest.commands endpoints rows) :
    ∃ d ∈ rows, c.endpointId = d.endpointId := by
  obtain ⟨d, row, issued⟩ := List.mem_flatMap.mp listed
  refine ⟨d, row, ?_⟩
  rcases List.mem_append.mp issued with first | second
  · split at first
    · rw [List.mem_singleton.mp first]
      rfl
    · cases first
  · rw [List.mem_singleton.mp second]
    rfl

/-! What replays, decisions and ingestions do to the part of the tenant -/

def Part.resetBreaker (p : Part) (id : Uuid) : Part :=
  { p with breakers := Function.update p.breakers id CircuitBreaker.reset }

def Part.updateAction (p : Part) (id : Uuid) (f : AgentAction → AgentAction) : Part :=
  { p with actions := Table.update AgentAction.id p.actions id f }

def Part.updateEndpoint (p : Part) (id : Uuid) (f : Endpoint → Endpoint) : Part :=
  { p with endpoints := Table.update Endpoint.id p.endpoints id f }

def Part.addEvent (p : Part) (event : Event) (rows : List Delivery) : Part :=
  { p with events := p.events ++ [event], deliveries := p.deliveries ++ rows }

def Part.execAll (streamShards : Nat) (p : Part) (commands : List Command) : Part :=
  commands.foldl (Part.exec streamShards) p

theorem owns_of_endpoints {db db' : Db} (same : db'.endpoints = db.endpoints) :
    owns db' = owns db := by
  funext t id
  rw [owns, owns, same]

section Rows

variable {s : Store} {t t' : Uuid} {e : Endpoint} {rows : List Delivery} {streamShards : Nat}

theorem owns_commitRequeued (s : Store) (rows : List Delivery) :
    owns (commitRequeued s rows).db = owns s.db :=
  owns_of_endpoints (endpoints_commitRequeued s rows)

/-- Stored rows of an endpoint that is not owned. -/
theorem part_commitRequeued_apart (tidy : Tidy s.db) (notMine : owns s.db t e.id = false)
    (stored : ∀ d ∈ rows, d ∈ s.db.deliveries ∧ d.endpointId = e.id) :
    partOf t (commitRequeued s rows) = partOf t s := by
  refine part_commitRequeued_other (fun row listed d there same => ?_)
  have one : d = row :=
    List.inj_on_of_nodup_map tidy.deliveryKeys there (stored row listed).1 same
  rw [one, (stored row listed).2]
  exact notMine

theorem part_requeueRows (mine : owns s.db t e.id = true)
    (stored : ∀ d ∈ rows, d ∈ s.db.deliveries ∧ d.endpointId = e.id) :
    partOf t (Replay.requeueRows streamShards s e rows) =
      if rows = [] then (partOf t s).commitRequeued rows
      else (((partOf t s).commitRequeued rows).resetBreaker e.id).execAll streamShards
        (Replay.commands streamShards e.ordering rows) := by
  unfold Replay.requeueRows
  have same : owns (commitRequeued s rows).db = owns s.db := owns_commitRequeued s rows
  split
  · exact part_commitRequeued rows
  · rw [part_execAll, part_resetBreaker (by rw [same]; exact mine), part_commitRequeued]
    · rfl
    · intro c listed
      obtain ⟨d, row, named⟩ := Replay.commands_endpoint listed
      change owns (commitRequeued s rows).db t c.endpointId = true
      rw [same, named, (stored d row).2]
      exact mine

theorem part_requeueRows_other (tidy : Tidy s.db) (notMine : owns s.db t e.id = false)
    (stored : ∀ d ∈ rows, d ∈ s.db.deliveries ∧ d.endpointId = e.id) :
    partOf t (Replay.requeueRows streamShards s e rows) = partOf t s := by
  unfold Replay.requeueRows
  have same : owns (commitRequeued s rows).db = owns s.db := owns_commitRequeued s rows
  have committed : partOf t (commitRequeued s rows) = partOf t s :=
    part_commitRequeued_apart tidy notMine stored
  split
  · exact committed
  · rw [part_execAll_other, part_resetBreaker_other (by rw [same]; exact notMine), committed]
    intro c listed
    obtain ⟨d, row, named⟩ := Replay.commands_endpoint listed
    change owns (commitRequeued s rows).db t c.endpointId = false
    rw [same, named, (stored d row).2]
    exact notMine

end Rows

section Decisions

variable {s : Store} {t : Uuid} {e : Endpoint} {a : AgentAction} {clock : ℚ} {streamShards : Nat}

theorem part_decide (s : Store) (t : Uuid) (a : AgentAction) (clock : ℚ) :
    partOf t (Approve.decide s a clock) =
      (partOf t s).updateAction a.id (fun row => Approve.approved row clock) :=
  part_updateAction (fun _ => rfl)

/-- An action of an endpoint that is not owned; its id names no other. -/
theorem part_decide_other (tidy : Tidy s.db) (stored : a ∈ s.db.actions)
    (notMine : owns s.db t a.endpointId = false) :
    partOf t (Approve.decide s a clock) = partOf t s :=
  part_updateAction_other (fun _ => rfl) (fun _ there same =>
    List.inj_on_of_nodup_map tidy.actionKeys there stored same ▸ notMine)

theorem part_reject (s : Store) (t : Uuid) (a : AgentAction) (clock : ℚ) :
    partOf t (Reject.decide s a clock) =
      (partOf t s).updateAction a.id (fun row => Reject.rejected row clock) :=
  part_updateAction (fun _ => rfl)

theorem part_reject_other (tidy : Tidy s.db) (stored : a ∈ s.db.actions)
    (notMine : owns s.db t a.endpointId = false) :
    partOf t (Reject.decide s a clock) = partOf t s :=
  part_updateAction_other (fun _ => rfl) (fun _ there same =>
    List.inj_on_of_nodup_map tidy.actionKeys there stored same ▸ notMine)

theorem part_paused (s : Store) (t : Uuid) (e : Endpoint) (a : AgentAction) (clock : ℚ) :
    partOf t (Approve.paused s e a clock) =
      (if e.status = .paused then partOf t s
        else (partOf t s).updateEndpoint e.id
          (fun row => { row with status := .paused })).updateAction
          a.id (fun row => Approve.approved row clock) := by
  unfold Approve.paused
  rw [part_decide]
  split
  · rfl
  · exact congrArg (fun p => p.updateAction a.id (fun row => Approve.approved row clock))
      (part_updateEndpoint (f := fun row => { row with status := .paused })
        (fun _ => ⟨rfl, rfl⟩))

theorem part_paused_other (tidy : Tidy s.db) (stored : a ∈ s.db.actions)
    (same : e.id = a.endpointId) (notMine : owns s.db t a.endpointId = false) :
    partOf t (Approve.paused s e a clock) = partOf t s := by
  unfold Approve.paused
  rw [part_decide]
  have decided : (partOf t s).updateAction a.id (fun row => Approve.approved row clock) =
      partOf t s := (part_decide s t a clock).symm.trans (part_decide_other tidy stored notMine)
  split
  · exact decided
  · have paused : partOf t (s.setEndpointStatus e.id .paused) = partOf t s :=
      part_updateEndpoint_other (fun _ => ⟨rfl, rfl⟩) (same ▸ notMine)
    rw [paused]
    exact decided

theorem part_approved (mine : owns s.db t e.id = true) :
    partOf t (Approve.result streamShards clock s e a) =
      if s.db.dead e.id = [] then
        ((partOf t s).commitRequeued (s.db.dead e.id)).updateAction a.id
          (fun row => Approve.approved row clock)
      else ((((partOf t s).commitRequeued (s.db.dead e.id)).updateAction a.id
          (fun row => Approve.approved row clock)).resetBreaker e.id).execAll streamShards
        (Approve.commands (s.db.dead e.id)) := by
  unfold Approve.result
  have same : owns (Approve.decide (commitRequeued s (s.db.dead e.id)) a clock).db = owns s.db :=
    owns_commitRequeued s (s.db.dead e.id)
  have committed : partOf t (Approve.decide (commitRequeued s (s.db.dead e.id)) a clock) =
      ((partOf t s).commitRequeued (s.db.dead e.id)).updateAction a.id
        (fun row => Approve.approved row clock) := by
    rw [part_decide, part_commitRequeued]
  dsimp only
  split
  · exact committed
  · rw [part_execAll, part_resetBreaker (by rw [same]; exact mine), committed]
    · rfl
    · intro c listed
      obtain ⟨d, row, named⟩ := Approve.commands_endpoint listed
      have endpoint : d.endpointId = e.id := (of_decide_eq_true (List.mem_filter.mp row).2).1
      change owns (Approve.decide (commitRequeued s (s.db.dead e.id)) a clock).db t
        c.endpointId = true
      rw [same, named, endpoint]
      exact mine

theorem part_approved_other (tidy : Tidy s.db) (stored : a ∈ s.db.actions)
    (same : e.id = a.endpointId) (notMine : owns s.db t a.endpointId = false) :
    partOf t (Approve.result streamShards clock s e a) = partOf t s := by
  unfold Approve.result
  have apart : owns (Approve.decide (commitRequeued s (s.db.dead e.id)) a clock).db = owns s.db :=
    owns_commitRequeued s (s.db.dead e.id)
  have requeued : partOf t (commitRequeued s (s.db.dead e.id)) = partOf t s := by
    refine part_commitRequeued_apart tidy (same ▸ notMine) (fun d row => ?_)
    obtain ⟨listed, passes⟩ := List.mem_filter.mp row
    exact ⟨listed, (of_decide_eq_true passes).1⟩
  have committed : partOf t (Approve.decide (commitRequeued s (s.db.dead e.id)) a clock) =
      partOf t s := by
    rw [part_decide, requeued, ← part_decide]
    exact part_decide_other tidy stored notMine
  dsimp only
  split
  · exact committed
  · rw [part_execAll_other,
      part_resetBreaker_other (by rw [apart, same]; exact notMine), committed]
    intro c listed
    obtain ⟨d, row, named⟩ := Approve.commands_endpoint listed
    have endpoint : d.endpointId = e.id := (of_decide_eq_true (List.mem_filter.mp row).2).1
    change owns (Approve.decide (commitRequeued s (s.db.dead e.id)) a clock).db t
      c.endpointId = false
    rw [apart, named, endpoint, same]
    exact notMine

end Decisions

section Ingestion

variable {s : Store} {t t' : Uuid} {fresh : Nat → Uuid} {body : EventCreate} {streamShards : Nat}

/-- The event of a request and its deliveries, for these endpoints. -/
def eventOf (fresh : Nat → Uuid) (t : Uuid) (body : EventCreate) : Event :=
  ⟨fresh 0, t, body.eventType, body.payload, body.idempotencyKey⟩

def rowsOf (fresh : Nat → Uuid) (endpoints : List Endpoint) : List Delivery :=
  Ingest.newDeliveries (fresh 0) (drawn fresh endpoints.length).tail endpoints

theorem served_new (unknown : body.idempotencyKey.bind (s.db.existingByIdempotencyKey t) = none) :
    Ingest.served streamShards fresh s t body =
      (execAll streamShards .ingest
        (addEvent s (drawn fresh (Ingest.fanOut s.db t body.eventType).length)
          (eventOf fresh t body) (rowsOf fresh (Ingest.fanOut s.db t body.eventType)))
        (Ingest.commands (Ingest.fanOut s.db t body.eventType)
          (rowsOf fresh (Ingest.fanOut s.db t body.eventType))), fresh 0) := by
  unfold Ingest.served
  rw [unknown]
  exact congrArg (fun s' => (execAll streamShards .ingest s' _, fresh 0)) (commitEvent_eq s _ _ _)

theorem rowsOf_owned {d : Delivery}
    (listed : d ∈ rowsOf fresh (Ingest.fanOut s.db t body.eventType)) :
    owns s.db t d.endpointId = true := by
  obtain ⟨_, _, e, fanned, same⟩ := Ingest.mem_newDeliveries listed
  obtain ⟨row, passes⟩ := List.mem_filter.mp (List.mem_of_mem_filter fanned)
  exact owns_iff.mpr ⟨e, row, same.symm, (of_decide_eq_true passes).1⟩

theorem rowsOf_drawn {endpoints : List Endpoint} {id : Uuid}
    (listed : id ∈ (rowsOf fresh endpoints).map Delivery.id) : ∃ n, id = fresh (n + 1) := by
  have ids : (rowsOf fresh endpoints).map Delivery.id = (drawn fresh endpoints.length).tail :=
    Ingest.map_id_newDeliveries (by simp [drawn])
  rw [ids] at listed
  obtain ⟨n, _, same⟩ := List.mem_map.mp listed
  exact ⟨n, same.symm⟩

theorem owns_addEvent (issued : List Uuid) (event : Event) (rows : List Delivery) :
    owns (addEvent s issued event rows).db = owns s.db := owns_of_endpoints rfl

theorem part_ingested (tidy : Tidy s.db) (unused : ∀ n, Unused s (fresh n))
    (unknown : body.idempotencyKey.bind (s.db.existingByIdempotencyKey t) = none) :
    partOf t (Ingest.served streamShards fresh s t body).1 =
      ((partOf t s).addEvent (eventOf fresh t body)
          (rowsOf fresh (Ingest.fanOut s.db t body.eventType))).execAll streamShards
        (Ingest.commands (Ingest.fanOut s.db t body.eventType)
          (rowsOf fresh (Ingest.fanOut s.db t body.eventType))) := by
  have added (issued : List Uuid) : partOf t (addEvent s issued (eventOf fresh t body)
      (rowsOf fresh (Ingest.fanOut s.db t body.eventType))) =
      (partOf t s).addEvent (eventOf fresh t body)
        (rowsOf fresh (Ingest.fanOut s.db t body.eventType)) := by
    refine part_addEvent issued rfl (fun d listed => rowsOf_owned listed) ?_
    intro a listed named
    obtain ⟨n, drawn⟩ := rowsOf_drawn named
    obtain ⟨d, row, key⟩ := tidy.attempts a listed
    exact (unused (n + 1)).delivery (drawn ▸ key ▸ List.mem_map_of_mem row)
  rw [served_new unknown]
  rw [part_execAll, added]
  · rfl
  · intro c listed
    obtain ⟨d, row, named⟩ := Ingest.commands_endpoint listed
    rw [owns_addEvent, named]
    exact rowsOf_owned row

theorem part_ingested_other (tidy : Tidy s.db) (other : t' ≠ t) :
    partOf t' (Ingest.served streamShards fresh s t body).1 = partOf t' s := by
  cases known : body.idempotencyKey.bind (s.db.existingByIdempotencyKey t) with
  | some existing =>
    unfold Ingest.served
    rw [known]
  | none =>
    rw [served_new known]
    rw [part_execAll_other, part_addEvent_other _ (Ne.symm other)
      (fun d listed => owns_unique tidy.endpointKeys (rowsOf_owned listed) other)]
    intro c listed
    obtain ⟨d, row, named⟩ := Ingest.commands_endpoint listed
    rw [owns_addEvent, named]
    exact owns_unique tidy.endpointKeys (rowsOf_owned row) other

end Ingestion

/-! The parts of the other tenants -/

section Others

variable {s : Store} {t t' id : Uuid} {draws : Draws} {streamShards : Nat}

theorem onEndpoint_cases {P : Store × Response → Prop} {f : Endpoint → Store × Response}
    (missing : P (s, .error (notFound "endpoint")))
    (found : ∀ e, ownedEndpoint s.db t id = some e → P (f e)) : P (onEndpoint t s id f) := by
  unfold onEndpoint
  cases selected : ownedEndpoint s.db t id with
  | none => exact missing
  | some e => exact found e selected

theorem onDiagnosis_cases {P : Store × Response → Prop} {f : Diagnosis → Store × Response}
    (missing : P (s, .error (notFound "diagnosis")))
    (found : ∀ g, ownedDiagnosis s.db t id = some g → P (f g)) : P (onDiagnosis t s id f) := by
  unfold onDiagnosis
  cases selected : ownedDiagnosis s.db t id with
  | none => exact missing
  | some g => exact found g selected

/-- Selected rows are stored rows of the endpoint that is named. -/
theorem selected_stored {body : ReplayRequest} {e : Endpoint} (key : e.id = body.endpointId) :
    ∀ d ∈ Replay.selected s.db body, d ∈ s.db.deliveries ∧ d.endpointId = e.id := by
  intro d listed
  obtain ⟨row, endpoint, _⟩ := Replay.selected_dead listed
  exact ⟨row, endpoint.trans key.symm⟩

theorem part_replayDlq_other (tidy : Tidy s.db) (other : t' ≠ t) (body : ReplayRequest) :
    partOf t' (replayDlq t s streamShards body).1 = partOf t' s := by
  unfold replayDlq Replay.served
  by_cases mine : body.endpointId ∈ s.db.tenantEndpointIds t
  · rw [if_pos mine]
    cases found : s.db.endpoint body.endpointId with
    | none => rfl
    | some e =>
      have key : e.id = body.endpointId := Db.endpoint_id found
      have notMine : owns s.db t' e.id = false :=
        owns_unique tidy.endpointKeys (key ▸ mem_tenantEndpointIds.mp mine) other
      exact part_requeueRows_other tidy notMine (selected_stored key)
  · rw [if_neg mine]

theorem part_approveAction_other (tidy : Tidy s.db) (other : t' ≠ t) (actionId : Uuid) :
    partOf t' (approveAction draws t s streamShards actionId).1 = partOf t' s := by
  unfold approveAction Approve.served
  cases selected : ownedAction s.db t actionId with
  | none => rfl
  | some a =>
    obtain ⟨stored, _, mine⟩ := ownedAction_spec selected
    have notMine : owns s.db t' a.endpointId = false := owns_unique tidy.endpointKeys mine other
    dsimp only
    split
    · cases found : s.db.endpoint a.endpointId with
      | none => rfl
      | some e =>
        have key : e.id = a.endpointId := Db.endpoint_id found
        cases kind : a.action with
        | pauseEndpoint => exact part_paused_other tidy stored key notMine
        | replayDlq => exact part_approved_other tidy stored key notMine
    · rfl

theorem part_rejectAction_other (tidy : Tidy s.db) (other : t' ≠ t) (actionId : Uuid) :
    partOf t' (rejectAction draws t s actionId).1 = partOf t' s := by
  unfold rejectAction Reject.served
  cases selected : ownedAction s.db t actionId with
  | none => rfl
  | some a =>
    obtain ⟨stored, _, mine⟩ := ownedAction_spec selected
    dsimp only
    split
    · exact part_reject_other tidy stored (owns_unique tidy.endpointKeys mine other)
    · rfl

/-- No request writes to the part of another tenant. -/
theorem part_serve_other (orders : Orders) (tidy : Tidy s.db)
    (unused : ∀ n, Unused s (draws.fresh n)) (other : t' ≠ t) (request : ApiRequest) :
    partOf t' (serve orders draws t s streamShards request).1 = partOf t' s := by
  cases request with
  | createEndpoint url ordering types =>
    have added := part_addEndpoint (t := t') (s := s) (e := {
      id := draws.fresh 0
      tenantId := t
      url := url
      signingSecret := draws.secret
      ordering := ordering
      eventTypes := types }) ((unused 0).silent tidy)
    rw [if_neg (Ne.symm other), List.append_nil] at added
    exact added
  | listEndpoints | getEvent _ | listDeliveries _ _ _ _ | listAttempts _ | listDlq _ _ _
  | listDiagnoses _ _ _ => rfl
  | getEndpoint endpointId | getBreaker endpointId =>
    exact onEndpoint_cases (P := fun r => partOf t' r.1 = partOf t' s) rfl (fun _ _ => rfl)
  | getDiagnosis diagnosisId | listActions diagnosisId =>
    exact onDiagnosis_cases (P := fun r => partOf t' r.1 = partOf t' s) rfl (fun _ _ => rfl)
  | patchEndpoint endpointId url status types =>
    refine onEndpoint_cases (P := fun r => partOf t' r.1 = partOf t' s) rfl (fun e found => ?_)
    have notMine := owns_unique tidy.endpointKeys (ownedEndpoint_owns found) other
    rw [← ownedEndpoint_id found] at notMine
    exact part_updateEndpoint_other (f := fun row => World.patched row url status types)
      (fun _ => ⟨rfl, rfl⟩) notMine
  | resetBreaker endpointId =>
    refine onEndpoint_cases (P := fun r => partOf t' r.1 = partOf t' s) rfl (fun e found => ?_)
    exact part_resetBreaker_other
      (owns_unique tidy.endpointKeys (ownedEndpoint_owns found) other)
  | deleteEndpoint endpointId =>
    refine onEndpoint_cases (P := fun r => partOf t' r.1 = partOf t' s) rfl (fun e found => ?_)
    have notMine := owns_unique tidy.endpointKeys (ownedEndpoint_owns found) other
    rw [← ownedEndpoint_id found] at notMine
    exact part_deleteRow_other tidy notMine
  | ingest body => exact part_ingested_other tidy other
  | replay body => exact part_replayDlq_other tidy other body
  | acknowledge diagnosisId =>
    refine onDiagnosis_cases (P := fun r => partOf t' r.1 = partOf t' s) rfl (fun g found => ?_)
    obtain ⟨stored, _, mine⟩ := ownedDiagnosis_spec found
    refine part_updateDiagnosis_other (f := fun row => { row with status := .acknowledged })
      (fun _ => rfl) (fun g' there same => ?_)
    have one : g' = g := List.inj_on_of_nodup_map tidy.diagnosisKeys there stored same
    exact one ▸ owns_unique tidy.endpointKeys mine other
  | approve actionId => exact part_approveAction_other tidy other actionId
  | reject actionId => exact part_rejectAction_other tidy other actionId

end Others

end Relay.Api
