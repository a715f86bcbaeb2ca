import Relay.Pipeline.History

/-!
# Tenants and pairs

The tenant of an event or an endpoint never changes, and delivery rows come only
from a fan-out, one for every endpoint of the event's tenant that it found. So
the rows pair events and endpoints of one tenant, no pair twice.
-/

namespace Relay

open Enqueue RetryQueue Worker Api

/-- The tenant of an endpoint. -/
def Db.owner (db : Db) (id : Uuid) : Option Uuid := (db.endpoint id).map Endpoint.tenantId

/-- The tenant of an event. -/
def Core.tenantOf (c : Core) (eventId : Uuid) : Option Uuid :=
  (c.event eventId).map Event.tenantId

/-- What the delivery rows pair. -/
def Core.pairs (c : Core) : List (Uuid × Uuid) :=
  c.deliveries.map (fun d => (d.eventId, d.endpointId))

/-- Event and endpoint are of one tenant. -/
def Store.Joins (s : Store) (eventId endpointId : Uuid) : Prop :=
  ∃ t, s.core.tenantOf eventId = some t ∧ s.db.owner endpointId = some t

/-- What a step leaves of an endpoint row: its tenant, and its rest unless it is woken. -/
structure Endpoint.Keeps (woken : Prop) (e e' : Endpoint) : Prop where
  tenant : e'.tenantId = e.tenantId
  rests : e.status ≠ .active → e'.status = .active → woken

def Db.Keeps (woken : Uuid → Prop) (db db' : Db) : Prop :=
  ∀ id e, db.endpoint id = some e → ∃ e', db'.endpoint id = some e' ∧ e.Keeps (woken id) e'

namespace Db.Keeps

variable {woken : Uuid → Prop} {db db' : Db}

theorem of_eq (same : db'.endpoints = db.endpoints) : db.Keeps woken db' := by
  intro id e found
  refine ⟨e, ?_, rfl, fun rests wakes => absurd wakes rests⟩
  simpa only [endpoint, same] using found

theorem append (more : List Endpoint) (same : db'.endpoints = db.endpoints ++ more) :
    db.Keeps woken db' := by
  intro id e found
  refine ⟨e, ?_, rfl, fun rests wakes => absurd wakes rests⟩
  unfold endpoint
  rw [same]
  exact Table.get_append_of_some more found

theorem update (k : Uuid) {f : Endpoint → Endpoint} (ids : ∀ e, (f e).id = e.id)
    (each : ∀ e, Endpoint.Keeps (woken k) e (f e))
    (same : db'.endpoints = Table.update Endpoint.id db.endpoints k f) : db.Keeps woken db' := by
  intro id e found
  unfold endpoint
  rw [same, Table.get_update ids]
  by_cases here : id = k
  · subst here
    rw [if_pos rfl, show Table.get Endpoint.id db.endpoints id = some e from found]
    exact ⟨f e, rfl, each e⟩
  · rw [if_neg here]
    exact ⟨e, found, rfl, fun rests wakes => absurd wakes rests⟩

theorem owner (keeps : db.Keeps woken db') {id t : Uuid} (found : db.owner id = some t) :
    db'.owner id = some t := by
  obtain ⟨e, row, rfl⟩ := Option.map_eq_some_iff.mp found
  obtain ⟨e', row', kept⟩ := keeps id e row
  exact Option.map_eq_some_iff.mpr ⟨e', row', kept.tenant⟩

end Db.Keeps

/-! No step moves an endpoint to another tenant, and only a PATCH wakes it -/

section Steps

variable {woken : Uuid → Prop} {env : Env} {streamShards : Nat} {source : Source} {clock : ℚ}
  {s s' : Store}

theorem Store.keeps_setEndpointStatus (id : Uuid) {status : EndpointStatus}
    (rests : status ≠ .active) : s.db.Keeps woken (s.setEndpointStatus id status).db :=
  .update id (f := fun e => { e with status := status }) (fun _ => rfl)
    (fun _ => ⟨rfl, fun _ wakes => absurd wakes rests⟩) rfl

theorem Worker.Pc.step_keeps {c : Choice} {shard messageId : Nat} {id : Uuid} {pc pc' : Pc}
    (h : pc.step env clock c shard messageId id s = some (s', pc')) : s.db.Keeps woken s'.db := by
  cases pc with
  | disable v =>
    cases h
    exact Store.keeps_setEndpointStatus _ (by decide)
  | acquireLock v =>
    simp only [Pc.step] at h
    split at h <;> cases h
    · exact .of_eq rfl
    · rename_i acquired
      unfold Store.acquireLock at acquired
      split at acquired <;> cases acquired
      exact .of_eq rfl
  | releaseNotHead v =>
    cases h
    split
    · unfold Store.releaseLock
      split <;> exact .of_eq rfl
    · exact .of_eq rfl
  | releaseLock v token acks =>
    cases h
    unfold Store.releaseLock
    split <;> exact .of_eq rfl
  | allowRequest v | takeToken v rate | acquireSlot v cap =>
    simp only [Pc.step] at h
    split at h
    all_goals
      rename_i answer
      cases h
      exact .of_eq (congrArg (fun a => a.1.db.endpoints) answer).symm
  | recordOutcome v slot time =>
    simp only [Pc.step] at h
    split at h <;> cases h <;> exact .of_eq rfl
  | _ =>
    simp only [Pc.step] at h
    repeat' split at h
    all_goals
      cases h <;> exact .of_eq rfl

theorem Api.Ingest.endpoints_unreserved (db : Db) (t : Uuid) (key : Option String) :
    (unreserve db t key).endpoints = db.endpoints := by
  cases key <;> rfl

theorem Api.Ingest.endpoints_reserved (db : Db) (t : Uuid) (key : Option String) :
    (reserve db t key).endpoints = db.endpoints := by
  cases key <;> rfl

theorem Api.Command.endpoints_exec (c : Command) :
    (c.exec streamShards source s).db.endpoints = s.db.endpoints := by
  obtain ⟨_, _, _, same⟩ := c.exec_frame streamShards source s
  rw [same]

theorem Api.endpoints_requeued (rows : List Delivery) :
    (commitRequeued s rows).db.endpoints = s.db.endpoints := by
  obtain ⟨_, _, same⟩ := commitRequeued_frame s rows
  rw [same]

theorem Api.Ingest.step_keeps {ids : List Uuid} {r r' : Ingest}
    (h : Ingest.step streamShards ids s r = some (s', r')) : s.db.Keeps woken s'.db := by
  simp only [Ingest.step] at h
  repeat' split at h
  all_goals
    cases h <;> first
      | exact .of_eq rfl
      | exact .of_eq (endpoints_reserved _ _ _)
      | exact .of_eq (endpoints_unreserved _ _ _)
      | exact .of_eq (Command.endpoints_exec _)

theorem Api.Replay.step_keeps {r r' : Replay}
    (h : Replay.step streamShards s r = some (s', r')) : s.db.Keeps woken s'.db := by
  simp only [Replay.step] at h
  repeat' split at h
  all_goals
    cases h <;> first
      | exact .of_eq rfl
      | exact .of_eq (endpoints_requeued _)
      | exact .of_eq (Command.endpoints_exec _)

theorem Api.Approve.step_keeps {r r' : Approve}
    (h : Approve.step streamShards clock s r = some (s', r')) : s.db.Keeps woken s'.db := by
  unfold Approve.step at h
  split at h
  case h_5 =>
    simp only at h
    cases h
    split
    · exact .of_eq rfl
    · exact Store.keeps_setEndpointStatus _ (by decide)
  all_goals
    repeat' split at h
    all_goals
      cases h <;> first
        | exact .of_eq rfl
        | exact .of_eq (endpoints_requeued _)
        | exact .of_eq (Command.endpoints_exec _)

end Steps

/-- A PATCH of the endpoint to `active`. -/
def Label.Wakes (l : Label) (id : Uuid) : Prop :=
  ∃ url eventTypes, l = .patchEndpoint id url (some .active) eventTypes

namespace World

variable {env : Env} {l : Label} {x y : World}

theorem step_keeps (h : World.step env l x = some y) : x.store.db.Keeps l.Wakes y.store.db := by
  cases l with
  | work w c =>
    simp only [World.step, stepWork] at h
    repeat' split at h
    all_goals cases h
    rename_i next
    exact Pc.step_keeps next
  | serve r ids =>
    simp only [World.step, stepServe] at h
    repeat' split at h
    all_goals cases h
    · rename_i next
      exact Ingest.step_keeps next
    · rename_i next
      exact Replay.step_keeps next
    · rename_i next
      exact Approve.step_keeps next
  | fail r =>
    simp only [World.step, stepFail] at h
    repeat' split at h
    all_goals cases h
    · rename_i next
      simp only [Ingest.fail] at next
      split at next <;> cases next <;> first
        | exact .of_eq rfl
        | exact .of_eq (Ingest.endpoints_unreserved _ _ _)
    · exact .of_eq rfl
    · exact .of_eq rfl
  | createEndpoint e =>
    simp only [World.step, stepCreateEndpoint] at h
    split at h <;> cases h
    exact .append [e] rfl
  | patchEndpoint id url status eventTypes =>
    cases h
    refine .update id (f := fun e => patched e url status eventTypes) (fun _ => rfl)
      (fun e => ⟨rfl, fun rests wakes => ?_⟩) rfl
    cases status with
    | none => exact absurd wakes rests
    | some status =>
      cases wakes
      exact ⟨url, eventTypes, rfl⟩
  | tick | createTenant | proposeAction | resetBreaker | read | claim | take | raise | crash
  | schedule | arrive =>
    simp only [World.step, stepTick, stepCreateTenant, stepProposeAction, stepResetBreaker,
      stepRead, stepClaim, stepBegin, stepRaise, stepCrash, stepSchedule, stepArrive] at h
    repeat' split at h
    all_goals cases h <;> exact .of_eq rfl

end World

/-! Pairs -/

theorem Core.pairs_commitDelivery (c : Core) (stage : Stage) (loaded current : Delivery) :
    (c.commitDelivery stage loaded current).pairs = c.pairs := by
  unfold pairs commitDelivery Table.update
  rw [List.map_map]
  refine List.map_congr_left (fun d _ => ?_)
  by_cases same : d.id = loaded.id <;> simp [same]

theorem Core.pairs_commitRequeued (c : Core) (rows : List Delivery) :
    (c.commitRequeued rows).pairs = c.pairs := by
  unfold commitRequeued
  induction rows generalizing c with
  | nil => rfl
  | cons row rest ih => rw [List.foldl_cons, ih, pairs_commitDelivery]

theorem Api.Ingest.pairs_newDeliveries {eventId : Uuid} {ids : List Uuid}
    {endpoints : List Endpoint} (drawn : ids.length = endpoints.length) :
    (newDeliveries eventId ids endpoints).map (fun d => (d.eventId, d.endpointId)) =
      endpoints.map (fun e => (eventId, e.id)) := by
  unfold newDeliveries
  induction ids generalizing endpoints with
  | nil =>
    rw [List.length_nil] at drawn
    rw [List.length_eq_zero_iff.mp drawn.symm]
    rfl
  | cons id rest ih =>
    cases endpoints with
    | nil => cases drawn
    | cons e tail =>
      rw [List.zipWith_cons_cons, List.map_cons, ih (Nat.succ.inj drawn)]
      rfl

/-- The open transaction is about to insert a fan-out over the event's tenant. -/
def Api.Job.Fanned (db : Db) : Job → Prop
  | .inserting event endpoints _ => (endpoints.map Endpoint.id).Nodup ∧
      ∀ e ∈ endpoints, db.owner e.id = some event.tenantId
  | _ => True

theorem Api.Job.Fanned.mono {woken : Uuid → Prop} {db db' : Db} {j : Job} (old : j.Fanned db)
    (keeps : db.Keeps woken db') : j.Fanned db' := by
  cases j with
  | inserting => exact ⟨old.1, fun e listed => keeps.owner (old.2 e listed)⟩
  | _ => trivial

theorem Api.Ingest.fanOut_owned {db : Db} {t : Uuid} {eventType : String}
    (keys : (db.endpoints.map Endpoint.id).Nodup) :
    ((fanOut db t eventType).map Endpoint.id).Nodup ∧
      ∀ e ∈ fanOut db t eventType, db.owner e.id = some t := by
  constructor
  · refine keys.sublist (List.Sublist.map Endpoint.id ?_)
    exact List.filter_sublist.trans List.filter_sublist
  · intro e listed
    obtain ⟨row, tenant, _⟩ := mem_fanOut.mp listed
    exact Option.map_eq_some_iff.mpr ⟨e, Table.get_of_mem keys row, tenant⟩

theorem Api.Ingest.step_fanned {streamShards : Nat} {ids : List Uuid} {s s' : Store}
    {r r' : Ingest} (keys : (s.db.endpoints.map Endpoint.id).Nodup)
    (h : Ingest.step streamShards ids s r = some (s', r')) : r'.job.Fanned s.db := by
  unfold Ingest.step at h
  split at h
  case h_2 =>
    split at h
    · cases h
      trivial
    · split at h
      · cases h
      · simp only at h
        split at h
        · cases h
        · split at h <;> cases h
          exact fanOut_owned keys
  all_goals
    repeat' split at h
    all_goals
      cases h <;> trivial

theorem Api.Replay.job_fanned (streamShards : Nat) (r : Replay) (db : Db) :
    (r.job streamShards).Fanned db := by
  unfold Replay.job
  split <;> trivial

theorem Api.Approve.job_fanned (r : Approve) (db : Db) : r.job.Fanned db := by
  unfold Approve.job
  split <;> trivial

/-- The session's copy of the endpoint row. -/
def Worker.Session.destination : Session → Option Endpoint
  | .queueing _ e | .waiting _ e | .gated _ e | .sending _ e | .receiving _ e
  | .committing _ e _ _ | .scheduling _ e _ | .refreshing _ e | .recording _ e | .popping _ e =>
    some e
  | _ => none

theorem Worker.Move.destination {env : Env} {clock : ℚ} {shard messageId : Nat}
    {id : Uuid} {s : Store}
    {c : Core} {q q' : Session} {e : Endpoint} (move : Move env clock shard messageId id s q c q')
    (copy : q'.destination = some e) : q.destination = some e ∨ s.db.endpoint e.id = some e := by
  cases move with
  | @queue d row found ordered =>
    cases copy
    exact Or.inr (Db.endpoint_id found ▸ found)
  | @gate d row found unordered =>
    cases copy
    exact Or.inr (Db.endpoint_id found ▸ found)
  | stay | pass | wait | vanished | commitDelivering | send | receive | commitFailed
  | commitSettled | schedule | refresh | toPop => exact Or.inl copy
  | _ => cases copy

namespace World

variable {env : Env} {l : Label} {x y : World}

/-- The rows pair no more than before, or a fan-out is committed. -/
theorem Change.pairs (change : Change env x y l) : y.core.pairs = x.core.pairs ∨
    ∃ r q event endpoints deliveries, x.requests r = some q ∧
      q.job env.settings.streamShards = .inserting event endpoints deliveries ∧
        y.core = x.core.commitEvent event deliveries := by
  have quiet : y.core.deliveries = x.core.deliveries → y.core.pairs = x.core.pairs := by
    intro same
    simp only [Core.pairs, same]
  cases change with
  | admin _ _ _ _ core _ _ | arrive _ core | read _ _ _ core | claim _ _ _ _ _ core
  | take _ _ _ core | raise _ _ core | drop _ _ core | schedule _ core | fail _ _ core =>
    exact Or.inl (quiet (congrArg Core.deliveries core :))
  | @work w c h pc _ _ _ move _ _ =>
    left
    generalize h.pc.session = q at move
    generalize pc.session = q' at move
    generalize y.core = c' at move
    cases move with
    | commitDelivering | commitFailed | commitSettled => exact Core.pairs_commitDelivery _ _ _ _
    | _ => rfl
  | @serve r ids q q' _ running move _ _ =>
    generalize job : Request.job _ q = j at move
    generalize Request.job _ q' = j' at move
    generalize y.core = c at move
    cases move with
    | @commit event endpoints deliveries =>
      exact Or.inr ⟨r, q, event, endpoints, deliveries, running, job, rfl⟩
    | requeue => exact Or.inl (Core.pairs_commitRequeued _ _)
    | @exec _ command _ => cases command <;> exact Or.inl rfl
    | _ => exact Or.inl rfl

theorem Consistent.endpointKeys (inv : Consistent env x) :
    (x.store.db.endpoints.map Endpoint.id).Nodup := by
  have keys := inv.allocated.endpoints
  rwa [show x.core.endpoints.map Prod.fst = x.store.db.endpoints.map Endpoint.id from
    List.map_map] at keys

structure Tenanted (env : Env) (x : World) : Prop where
  pairs : ∀ p ∈ x.core.pairs, x.store.Joins p.1 p.2
  once : x.core.pairs.Nodup
  jobs : ∀ r q, x.requests r = some q →
    (q.job env.settings.streamShards).Fanned x.store.db
  copies : ∀ w h e, x.Handles w h → h.pc.session.destination = some e →
    x.store.db.owner e.id = some e.tenantId

theorem tenanted_initial (env : Env) (shardOf : Nat → Nat) :
    Tenanted env (initial shardOf) where
  pairs := fun _ listed => absurd listed List.not_mem_nil
  once := List.nodup_nil
  jobs := fun _ _ running => by cases running
  copies := fun _ _ _ handles => by cases handles

theorem joins_step (next : World.step env l x = some y) {eventId endpointId : Uuid}
    (joins : x.store.Joins eventId endpointId) : y.store.Joins eventId endpointId := by
  obtain ⟨t, event, owner⟩ := joins
  obtain ⟨v, found, rfl⟩ := Option.map_eq_some_iff.mp event
  refine ⟨v.tenantId, ?_, (step_keeps next).owner owner⟩
  exact Option.map_eq_some_iff.mpr ⟨v, (step_change next).extends.events found, rfl⟩

/-- A step serves a request by the code of its kind. -/
theorem Tenanted.jobs_step (inv : Consistent env x) (old : Tenanted env x)
    (next : World.step env l x = some y) {r : Nat} {q : Request} (running : y.requests r = some q) :
    (q.job env.settings.streamShards).Fanned y.store.db := by
  have keeps := step_keeps next
  cases (step_change next).serves running with
  | same before _ => exact (old.jobs r q before).mono keeps
  | arrived _ _ idle => exact idle ▸ trivial
  | failed _ _ ended => exact ended ▸ trivial
  | @moved ids _ label before move =>
    subst label
    clear move
    refine Job.Fanned.mono ?_ keeps
    simp only [World.step, stepServe, before] at next
    repeat' split at next
    all_goals cases next
    all_goals
      rename_i moved
      have same := (congrFun rfl r).symm.trans running
      simp only [setRequest, Function.update_self] at same
      cases same
    · exact Ingest.step_fanned inv.endpointKeys moved
    · exact Replay.job_fanned _ _ _
    · exact Approve.job_fanned _ _

theorem Tenanted.step (inv : Consistent env x) (old : Tenanted env x)
    (next : World.step env l x = some y) : Tenanted env y := by
  have change := step_change next
  have jobs : ∀ r q, y.requests r = some q →
      (q.job env.settings.streamShards).Fanned y.store.db := fun r q => old.jobs_step inv next
  have copies : ∀ w h e, y.Handles w h → h.pc.session.destination = some e →
      y.store.db.owner e.id = some e.tenantId := by
    intro w h e handles copy
    refine (step_keeps next).owner ?_
    cases change.arises handles with
    | same before _ => exact old.copies w h e before copy
    | begun _ _ begun =>
      rw [begun] at copy
      cases copy
    | raised _ _ leaving _ =>
      rw [leaving] at copy
      cases copy
    | moved _ handled _ move _ =>
      rcases move.destination copy with before | row
      · exact old.copies w _ e handled before
      · exact Option.map_eq_some_iff.mpr ⟨e, row, rfl⟩
  rcases change.pairs with same | ⟨r, q, event, endpoints, deliveries, running, job, core⟩
  · exact ⟨fun p listed => joins_step next (old.pairs p (same ▸ listed)),
      same ▸ old.once, jobs,
      copies⟩
  -- the rows of a fan-out: its event is new, and its endpoints are distinct
  have fansOut := inv.fansOut r q running
  have fanned := old.jobs r q running
  have drawn : event.id ∈ x.drawn env r := by
    rw [drawn_running env running, job]
    exact List.mem_cons_self
  rw [job] at fansOut fanned
  obtain ⟨ids, length, rfl⟩ := fansOut
  have unused : event.id ∉ x.core.events.map Event.id := fun taken =>
    (inv.allocated.drawn r event.id drawn).2 (List.mem_append_left _ taken)
  have rows : y.core.pairs = x.core.pairs ++ endpoints.map (fun e => (event.id, e.id)) := by
    rw [core, ← Ingest.pairs_newDeliveries length]
    exact List.map_append
  have inserted : y.core.event event.id = some event := by
    have absent : Table.get Event.id x.core.events event.id = none := Table.get_eq_none.mpr unused
    rw [core]
    simp only [Core.event, Core.commitEvent, Table.get_append, absent]
    simp [Table.get]
  refine ⟨fun p listed => ?pairs, ?once, jobs, copies⟩
  case pairs =>
    rw [rows] at listed
    rcases List.mem_append.mp listed with before | now
    · exact joins_step next (old.pairs p before)
    · obtain ⟨e, there, rfl⟩ := List.mem_map.mp now
      exact ⟨event.tenantId, congrArg (Option.map Event.tenantId) inserted,
        (step_keeps next).owner (fanned.2 e there)⟩
  case once =>
    rw [rows, List.nodup_append]
    have distinct : (endpoints.map (fun e => (event.id, e.id))).Nodup := by
      have paired : endpoints.map (fun e => (event.id, e.id)) =
          (endpoints.map Endpoint.id).map (fun id => (event.id, id)) := List.map_map.symm
      rw [paired]
      exact fanned.1.map (fun a b same => (Prod.mk.inj same).2)
    refine ⟨old.once, distinct, fun p before p' now same => unused ?_⟩
    obtain ⟨d, row, rfl⟩ := List.mem_map.mp before
    obtain ⟨e, _, rfl⟩ := List.mem_map.mp now
    obtain ⟨⟨v, found⟩, _⟩ := inv.core.rows d row
    have key : d.eventId = event.id := (Prod.mk.inj same).1
    exact key ▸ Table.get_key found ▸ List.mem_map_of_mem (Table.get_mem found)

theorem tenanted_run {guard : World → Label → Prop} {shardOf : Nat → Nat}
    (run : Transition.Run (World.step env) guard (initial shardOf) x) : Tenanted env x :=
  run.invariant_under (consistent_initial env shardOf) (tenanted_initial env shardOf)
    (fun inv _ next => inv.step (step_change next)) (fun inv old _ next => old.step inv next)

end World

end Relay
