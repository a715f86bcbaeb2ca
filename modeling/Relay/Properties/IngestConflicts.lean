import Relay.Api.Requests
import Relay.Pipeline.Ingestion

/-!
# What the conflict handler of an ingestion sees

Any number of ingestions, await by await, among other requests. A duplicate key
is found by the endpoint query, which inserts the event; what the commit can
still violate are the foreign keys of the new deliveries. So its handler runs
when an endpoint that the query returned has been deleted, and never for a key.
-/

namespace Relay.Api

open Transition

/-- The store and the ingestions under way. -/
structure Intake where
  store : Store
  ingests : Nat → Option Ingest

namespace Intake

/-- `request`: any other request of a tenant, from its first to its last statement. -/
inductive Label where
  | arrive (r : Nat) (tenantId : Uuid) (body : EventCreate)
  | serve (r : Nat) (ids : List Uuid)
  | fail (r : Nat)
  | request (draws : Draws) (tenantId : Uuid) (q : ApiRequest)

def start (s : Store) : Intake := ⟨s, fun _ => none⟩

def goto (x : Intake) (r : Nat) (p : Store × Ingest) : Intake :=
  ⟨p.1, Function.update x.ingests r (some p.2)⟩

def step (orders : Orders) (streamShards : Nat) : Label → Intake → Option Intake
  | .arrive r tenantId body, x =>
    if (x.ingests r).isNone then some (x.goto r (x.store, Ingest.start tenantId body)) else none
  | .serve r ids, x =>
    (x.ingests r).bind (fun q => (q.step streamShards ids x.store).map (x.goto r))
  | .fail r, x => (x.ingests r).bind (fun q => (q.fail x.store).map (x.goto r))
  | .request _ _ (.ingest _), _ => none
  | .request draws tenantId q, x =>
    some { x with store := (serve orders draws tenantId x.store streamShards q).1 }

/-- The commit has raised `IntegrityError`, and its handler runs. -/
def Raised (q : Ingest) : Prop := q.pc = .rollback

/-- Whenever the commit raises, the request has a key and an event with it exists;
the handler neither fails its assertion nor ends in another exception. -/
structure OnlyConflicts (x : Intake) : Prop where
  conflict : ∀ r q, x.ingests r = some q → Raised q → ∃ key event,
    q.body.idempotencyKey = some key ∧
      x.store.db.existingByIdempotencyKey q.tenantId key = some event
  asserted : ∀ r q, x.ingests r = some q → q.pc ≠ .failed .assertionError
  resolved : ∀ r q, x.ingests r = some q → q.pc ≠ .failed .missingGreenlet

/-- No request deletes an endpoint to which an ingestion has fanned out and not
yet committed. -/
def KeepsFannedOut (x : Intake) (l : Label) : Prop :=
  ∀ draws tenantId endpointId r q event endpoints deliveries,
    l = .request draws tenantId (.deleteEndpoint endpointId) → x.ingests r = some q →
    q.pc = .commit event endpoints deliveries → ∀ d ∈ deliveries, d.endpointId ≠ endpointId

/-- A commit that is ahead will succeed, and none has raised. -/
structure Ready (s : Store) (q : Ingest) : Prop where
  keys : ∀ event endpoints deliveries, q.pc = .commit event endpoints deliveries →
    Ingest.ForeignKeysHold s.db deliveries
  quiet : ¬ Raised q
  asserted : q.pc ≠ .failed .assertionError
  resolved : q.pc ≠ .failed .missingGreenlet

/-- The endpoints of one store are there in the other. -/
def Kept (s s' : Store) : Prop :=
  ∀ id, (s.db.endpoint id).isSome = true → (s'.db.endpoint id).isSome = true

variable {s s' : Store} {q q' : Ingest} {streamShards : Nat} {orders : Orders} {draws : Draws}
  {t : Uuid} {x y : Intake} {l : Label}

theorem Kept.of_same (same : s'.db.endpoints = s.db.endpoints) : Kept s s' := by
  intro id present
  rw [Db.endpoint, same]
  exact present

theorem Kept.of_update {id : Uuid} {f : Endpoint → Endpoint} (keeps : ∀ e, (f e).id = e.id)
    (updated : s'.db.endpoints = Table.update Endpoint.id s.db.endpoints id f) : Kept s s' := by
  intro i present
  obtain ⟨e, found⟩ := Option.isSome_iff_exists.mp present
  rw [Db.endpoint, updated, Table.get_update keeps]
  unfold Db.endpoint at found
  split <;> rw [found] <;> rfl

theorem endpoints_execAll (source : Source) (s : Store) (commands : List Command) :
    (execAll streamShards source s commands).db.endpoints = s.db.endpoints := by
  unfold execAll
  induction commands generalizing s with
  | nil => rfl
  | cons c rest ih => rw [List.foldl_cons, ih, exec_db]

theorem kept_requeueRows (e : Endpoint) (rows : List Delivery) :
    Kept s (Replay.requeueRows streamShards s e rows) := by
  apply Kept.of_same
  unfold Replay.requeueRows
  split
  · exact endpoints_commitRequeued s rows
  · rw [endpoints_execAll]
    exact endpoints_commitRequeued s rows

theorem kept_approved (e : Endpoint) (a : AgentAction) (clock : ℚ) :
    Kept s (Approve.result streamShards clock s e a) := by
  apply Kept.of_same
  unfold Approve.result
  dsimp only
  split
  · exact endpoints_commitRequeued s _
  · rw [endpoints_execAll]
    exact endpoints_commitRequeued s _

theorem kept_paused (e : Endpoint) (a : AgentAction) (clock : ℚ) :
    Kept s (Approve.paused s e a clock) := by
  unfold Approve.paused
  split
  · exact .of_same rfl
  · exact .of_update (f := fun row => { row with status := .paused }) (fun _ => rfl) rfl

theorem endpoint_deleted (db : Db) {id endpointId : Uuid} (other : id ≠ endpointId) :
    (deleted db endpointId).endpoint id = db.endpoint id := by
  unfold Db.endpoint Table.get
  refine Table.find_view (fun e _ same => ?_)
  have key : e.id = id := of_decide_eq_true same
  exact decide_eq_true (key ▸ other)

/-- A request that is no ingestion deletes the endpoint that it names, or none. -/
theorem serve_endpoint {request : ApiRequest} {id : Uuid}
    (other : ∀ body, request ≠ .ingest body)
    (spared : request ≠ .deleteEndpoint id) (present : (s.db.endpoint id).isSome = true) :
    ((serve orders draws t s streamShards request).1.db.endpoint id).isSome = true := by
  have kept : Kept s s := .of_same rfl
  cases request with
  | createEndpoint url ordering types =>
    obtain ⟨e, found⟩ := Option.isSome_iff_exists.mp present
    refine Option.isSome_iff_exists.mpr ⟨e, ?_⟩
    exact Table.get_append_of_some _ found
  | listEndpoints | getEvent _ | listDeliveries _ _ _ _ | listAttempts _ | listDlq _ _ _
  | listDiagnoses _ _ _ => exact present
  | getEndpoint endpointId | getBreaker endpointId | resetBreaker endpointId =>
    exact onEndpoint_cases (P := fun r => Kept s r.1) kept (fun _ _ => .of_same rfl) id present
  | patchEndpoint endpointId url status types =>
    refine onEndpoint_cases (P := fun r => Kept s r.1) kept (fun e _ => ?_) id present
    exact .of_update (f := fun row => World.patched row url status types) (fun _ => rfl) rfl
  | deleteEndpoint endpointId =>
    have ne : id ≠ endpointId := fun same => spared (same ▸ rfl)
    refine onEndpoint_cases (P := fun r => (r.1.db.endpoint id).isSome = true) present
      (fun e owned => ?_)
    have key : e.id = endpointId := (Table.find_spec owned).2.1
    change ((deleted s.db e.id).endpoint id).isSome = true
    rw [endpoint_deleted s.db (key ▸ ne)]
    exact present
  | ingest body => exact absurd rfl (other body)
  | getDiagnosis diagnosisId | acknowledge diagnosisId | listActions diagnosisId =>
    exact onDiagnosis_cases (P := fun r => Kept s r.1) kept (fun _ _ => .of_same rfl) id present
  | replay body =>
    change ((Replay.served streamShards s t body).1.db.endpoint id).isSome = true
    unfold Replay.served
    split
    · split
      · exact present
      · exact kept_requeueRows _ _ id present
    · exact present
  | approve actionId =>
    change ((Approve.served streamShards draws.clock s t actionId).1.db.endpoint id).isSome = true
    unfold Approve.served
    split
    · exact present
    · split
      · split
        · exact present
        · rename_i a _ _ _ e _
          cases a.action with
          | pauseEndpoint => exact kept_paused e a draws.clock id present
          | replayDlq => exact kept_approved e a draws.clock id present
      · exact present
  | reject actionId =>
    change ((Reject.served draws.clock s t actionId).1.db.endpoint id).isSome = true
    unfold Reject.served
    split
    · exact present
    · split
      · exact present
      · exact present

/-- An ingestion writes no endpoint. -/
theorem endpoints_unreserve (db : Db) (tenantId : Uuid) (key : Option String) :
    (Ingest.unreserve db tenantId key).endpoints = db.endpoints := by
  cases key <;> rfl

theorem endpoints_step {ids : List Uuid} (next : q.step streamShards ids s = some (s', q')) :
    s'.db.endpoints = s.db.endpoints := by
  obtain ⟨pc, _, steps⟩ := Ingest.step_steps next
  cases steps with
  | insert =>
    unfold Ingest.reserve
    split <;> rfl
  | commit =>
    unfold Ingest.commitEvent
    exact endpoints_unreserve _ _ _
  | rollback => exact endpoints_unreserve _ _ _
  | exec => rw [exec_db]
  | _ => rfl

theorem endpoints_fail (next : q.fail s = some (s', q')) : s'.db.endpoints = s.db.endpoints := by
  rcases (Ingest.fail_steps next).2 with ⟨_, rfl⟩ | ⟨_, rfl⟩
  · exact endpoints_unreserve _ _ _
  · rfl

theorem Ready.kept (ready : Ready s q)
    (kept : ∀ event endpoints deliveries, q.pc = .commit event endpoints deliveries →
      ∀ d ∈ deliveries, (s.db.endpoint d.endpointId).isSome = true →
        (s'.db.endpoint d.endpointId).isSome = true) : Ready s' q where
  keys := fun event endpoints deliveries pc d listed =>
    kept event endpoints deliveries pc d listed (ready.keys event endpoints deliveries pc d listed)
  quiet := ready.quiet
  asserted := ready.asserted
  resolved := ready.resolved

/-- Nothing is checked any more, or not yet. -/
theorem Ready.of_pc (commits : ∀ event endpoints deliveries,
      q.pc ≠ .commit event endpoints deliveries) (quiet : ¬ Raised q)
    (asserted : q.pc ≠ .failed .assertionError) (resolved : q.pc ≠ .failed .missingGreenlet) :
    Ready s q where
  keys := fun event endpoints deliveries pc => absurd pc (commits event endpoints deliveries)
  quiet := quiet
  asserted := asserted
  resolved := resolved

theorem ready_start (s : Store) (tenantId : Uuid) (body : EventCreate) :
    Ready s (Ingest.start tenantId body) := by
  unfold Ingest.start
  split <;> exact .of_pc nofun nofun nofun nofun

/-- The query returns endpoints that are there. -/
theorem foreignKeysHold_new {eventId : Uuid} {ids : List Uuid} {eventType : String}
    (same : s'.db.endpoints = s.db.endpoints) : Ingest.ForeignKeysHold s'.db
      (Ingest.newDeliveries eventId ids (Ingest.fanOut s.db t eventType)) := by
  intro d listed
  obtain ⟨_, _, e, fanned, key⟩ := Ingest.mem_newDeliveries listed
  have stored : e ∈ s'.db.endpoints :=
    same ▸ List.mem_of_mem_filter (List.mem_of_mem_filter fanned)
  rw [key]
  exact Db.endpoint_isSome stored

theorem Ready.step {ids : List Uuid} (ready : Ready s q)
    (next : q.step streamShards ids s = some (s', q')) : Ready s' q' := by
  have endpoints := endpoints_step next
  obtain ⟨pc, rfl, steps⟩ := Ingest.step_steps next
  cases steps with
  | found | missing | taken | commit | exec | finish =>
    exact .of_pc nofun nofun nofun nofun
  | insert =>
    refine ⟨fun event endpoints' deliveries same => ?_, nofun, nofun, nofun⟩
    cases same
    exact foreignKeysHold_new endpoints
  | conflict pc missing => exact absurd (ready.keys _ _ _ pc) missing
  | rollback pc => exact absurd pc ready.quiet

theorem Ready.fail (next : q.fail s = some (s', q')) : Ready s' q' := by
  obtain ⟨rfl, _⟩ := Ingest.fail_steps next
  exact .of_pc nofun nofun nofun nofun

def AllReady (x : Intake) : Prop := ∀ r q, x.ingests r = some q → Ready x.store q

/-- One ingestion steps, the others meet the same endpoints. -/
theorem AllReady.goto (ready : AllReady x) {r : Nat} (own : Ready s' q')
    (same : s'.db.endpoints = x.store.db.endpoints) : AllReady (x.goto r (s', q')) := by
  intro r' q running
  by_cases mine : r' = r
  · subst mine
    simp only [Intake.goto, Function.update_self] at running
    cases running
    exact own
  · simp only [Intake.goto, Function.update_of_ne mine] at running
    exact (ready r' q running).kept (fun _ _ _ _ d _ => Kept.of_same same d.endpointId)

theorem AllReady.step (ready : AllReady x) (keeps : KeepsFannedOut x l)
    (next : step orders streamShards l x = some y) : AllReady y := by
  cases l with
  | arrive r tenantId body =>
    simp only [Intake.step] at next
    split at next <;> cases next
    exact ready.goto (ready_start _ _ _) rfl
  | serve r ids =>
    obtain ⟨q, running, stepped⟩ := Option.bind_eq_some_iff.mp next
    obtain ⟨⟨s', q'⟩, served, rfl⟩ := Option.map_eq_some_iff.mp stepped
    exact ready.goto ((ready r q running).step served) (endpoints_step served)
  | fail r =>
    obtain ⟨q, running, stepped⟩ := Option.bind_eq_some_iff.mp next
    obtain ⟨⟨s', q'⟩, failed, rfl⟩ := Option.map_eq_some_iff.mp stepped
    exact ready.goto (Ready.fail failed) (endpoints_fail failed)
  | request draws tenantId request =>
    intro r q running
    have other : ∀ body, request ≠ .ingest body := by
      rintro body rfl
      cases next
    have served : y = { x with
        store := (serve orders draws tenantId x.store streamShards request).1 } := by
      cases request <;> first
        | exact absurd rfl (other _)
        | exact (Option.some.inj next).symm
    subst served
    refine (ready r q running).kept (fun event endpoints deliveries pc d listed present => ?_)
    refine serve_endpoint other (fun deletes => ?_) present
    exact keeps draws tenantId d.endpointId r q event endpoints deliveries
      (deletes ▸ rfl) running pc
      d listed rfl

/-- As long as no endpoint is deleted between the query that returned it and the
commit, no commit raises, whatever else happens in between. -/
theorem only_conflicts (run : Run (step orders streamShards) KeepsFannedOut (start s) x) :
    OnlyConflicts x := by
  have ready : AllReady x := run.invariant (I := AllReady)
    (fun r q running => by cases running) (fun ready keeps next => ready.step keeps next)
  exact {
    conflict := fun r q running raised => absurd raised (ready r q running).quiet
    asserted := fun r q running => (ready r q running).asserted
    resolved := fun r q running => (ready r q running).resolved }

/-! An ingestion among other requests, and two that lose their endpoint -/

def asStored : Orders := ⟨id, id, id, id, id⟩

def drawsFrom (n : Nat) : Draws := ⟨fun i => n + i, "secret", 0⟩

/-- Endpoint 3 of the tenant takes other events. -/
def twoEndpoints : Store :=
  { (World.initial (fun _ => 0)).store with
    db := {
      tenants := [{ id := 2 }]
      endpoints := [{ id := 1, tenantId := 2 },
        { id := 3, tenantId := 2, eventTypes := ["invoice.paid"] }] } }

def orderCreated (key : Option String) : EventCreate := ⟨"order.created", "payload", key⟩

/-- The endpoint query of request 0 has returned endpoint 1. -/
def queried (key : Option String) : List Label :=
  [.arrive 0 2 (orderCreated key)] ++ (if key.isSome then [.serve 0 []] else []) ++
    [.serve 0 [10, 11]]

/-- All but request 0 are absent. -/
def First (x : Intake) : Prop := ∀ r, r ≠ 0 → x.ingests r = none

def onlyFirst : Label → Bool
  | .arrive r _ _ | .serve r _ | .fail r => decide (r = 0)
  | .request .. => true

theorem First.goto (first : First x) (p : Store × Ingest) : First (x.goto 0 p) := by
  intro r other
  simp only [Intake.goto, Function.update_of_ne other]
  exact first r other

theorem First.step (first : First x) (zero : onlyFirst l = true)
    (next : step orders streamShards l x = some y) : First y := by
  cases l with
  | arrive r tenantId body =>
    cases of_decide_eq_true zero
    simp only [Intake.step] at next
    split at next <;> cases next
    exact first.goto _
  | serve r ids =>
    cases of_decide_eq_true zero
    obtain ⟨q, _, stepped⟩ := Option.bind_eq_some_iff.mp next
    obtain ⟨p, _, rfl⟩ := Option.map_eq_some_iff.mp stepped
    exact first.goto p
  | fail r =>
    cases of_decide_eq_true zero
    obtain ⟨q, _, stepped⟩ := Option.bind_eq_some_iff.mp next
    obtain ⟨p, _, rfl⟩ := Option.map_eq_some_iff.mp stepped
    exact first.goto p
  | request draws tenantId request =>
    cases request <;> cases next <;> exact first

/-- The endpoints whose rows wait for the commit. -/
def awaited : IngestPc → List Uuid
  | .commit _ _ deliveries => deliveries.map Delivery.endpointId
  | _ => []

def keepsAwaited (x : Intake) : Label → Bool
  | .request _ _ (.deleteEndpoint endpointId) =>
    (x.ingests 0).elim true (fun q => decide (endpointId ∉ awaited q.pc))
  | _ => true

theorem keepsAwaited_sound (first : First x) (checked : keepsAwaited x l = true) :
    KeepsFannedOut x l := by
  rintro draws tenantId endpointId r q event endpoints deliveries rfl running pc d listed same
  by_cases zero : r = 0
  · subst zero
    simp only [keepsAwaited, running, Option.elim_some, pc, awaited] at checked
    exact of_decide_eq_true checked (same ▸ List.mem_map_of_mem listed)
  · rw [first r zero] at running
    cases running

/-- In between endpoint 1 is paused, endpoint 3 deleted and another one created. -/
def amidRequests : List Label :=
  queried none ++
    [.request (drawsFrom 20) 2 (.patchEndpoint 1 none (some .paused) none),
      .request (drawsFrom 20) 2 (.deleteEndpoint 3),
      .request (drawsFrom 20) 2 (.createEndpoint "" .ordered [])] ++
    List.replicate 3 (.serve 0 [])

theorem only_conflicts_amid : ∃ x : Intake,
    Run (step asStored 8) KeepsFannedOut (start twoEndpoints) x ∧
      (x.ingests 0).map Ingest.pc = some (.accepted 10) ∧ OnlyConflicts x := by
  have evaluates : (exec (step asStored 8) keepsAwaited amidRequests (start twoEndpoints)).elim
      false (fun x => decide ((x.ingests 0).map Ingest.pc = some (.accepted 10))) = true := by
    decide +kernel
  obtain ⟨x, executed, passes⟩ := reached evaluates
  have inside : ∀ l ∈ amidRequests, onlyFirst l = true := List.all_eq_true.mp (by decide)
  have run : Run (step asStored 8) KeepsFannedOut (start twoEndpoints) x ∧ First x :=
    exec_run (I := First) (fun _ _ => rfl)
      (fun l listed _ _ first next => first.step (inside l listed) next)
      (fun _ _ _ first checked => keepsAwaited_sound first checked) executed
  exact ⟨x, run.1, of_decide_eq_true passes, only_conflicts run.1⟩

/-- Endpoint 1 is deleted before the commit, and nothing else happens. -/
def losingEndpoint (key : Option String) : List Label :=
  queried key ++ [.request (drawsFrom 20) 2 (.deleteEndpoint 1)] ++
    List.replicate 2 (.serve 0 [])

theorem loses_endpoint (key : Option String) (reason : Failure)
    (evaluates : (exec (step asStored 8) (fun _ _ => true) (losingEndpoint key)
      (start twoEndpoints)).elim false
        (fun x => decide ((x.ingests 0).map Ingest.pc = some (.failed reason))) = true) :
    ∃ (x : Intake) (q : Ingest),
      Run (step asStored 8) (fun _ _ => True) (start twoEndpoints) x ∧
      x.ingests 0 = some q ∧ q.pc = .failed reason := by
  obtain ⟨x, executed, passes⟩ := reached evaluates
  obtain ⟨q, running, pc⟩ := Option.map_eq_some_iff.mp (of_decide_eq_true passes)
  exact ⟨x, q, run_of_exec (fun _ _ _ => trivial) executed, running, pc⟩

/-- Without a key the assertion fails, with a new key the handler ends before its lookup. -/
theorem conflict_without_key : ∃ x y : Intake,
    Run (step asStored 8) (fun _ _ => True) (start twoEndpoints) x ∧ ¬ OnlyConflicts x ∧
    Run (step asStored 8) (fun _ _ => True) (start twoEndpoints) y ∧ ¬ OnlyConflicts y := by
  obtain ⟨x, q, run, running, pc⟩ := loses_endpoint none .assertionError (by decide +kernel)
  obtain ⟨y, q', run', running', pc'⟩ :=
    loses_endpoint (some "k") .missingGreenlet (by decide +kernel)
  exact ⟨x, y, run, fun only => only.asserted 0 q running pc,
    run', fun only => only.resolved 0 q' running' pc'⟩

end Intake

end Relay.Api
