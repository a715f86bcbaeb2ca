import Relay.Properties.AcceptedEnqueued

/-!
# Is a repeated event ingested once?

The unique constraint admits one event of a tenant with a key. But the insert is
flushed by the endpoint query, so that a request which loses the race fails there,
before the `try` that would look up the winner. Where no request gets to its query
after the commit of another, all of them return the one event.
-/

namespace Relay

open Enqueue RetryQueue Worker Api Transition

variable {tenantId : Uuid} {key : String}

instance (e : Event) : Decidable (e.Keyed tenantId key) := inferInstanceAs (Decidable (_ ∧ _))

theorem keyTaken_iff {db : Db} : Ingest.keyTaken db tenantId (some key) = true ↔
    ∃ e ∈ db.events, e.Keyed tenantId key := by
  simp only [Ingest.keyTaken, Db.existingByIdempotencyKey, List.find?_isSome, decide_eq_true_eq]
  rfl

/-- A reservation ends for the key of the transaction only. -/
theorem mem_unreserve {db : Db} {tenantId' : Uuid} {key' : Option String}
    (other : ¬ (tenantId' = tenantId ∧ key' = some key))
    (held : (tenantId, key) ∈ db.reserved) :
    (tenantId, key) ∈ (Ingest.unreserve db tenantId' key').reserved := by
  cases key' with
  | none => exact held
  | some k =>
    refine (List.mem_erase_of_ne ?_).mpr held
    intro same
    cases same
    exact other ⟨rfl, rfl⟩

theorem mem_reserve {db : Db} {tenantId' : Uuid} {key' : Option String}
    (held : (tenantId, key) ∈ db.reserved) :
    (tenantId, key) ∈ (Ingest.reserve db tenantId' key').reserved := by
  cases key' with
  | none => exact held
  | some k => exact List.mem_cons_of_mem _ held

/-- The insert was not refused, and the request has not failed. -/
def Api.Ingest.OnCourse (q : Ingest) : Prop :=
  match q.pc with
  | .rollback | .failed _ => False
  | _ => True

namespace World

variable {env : Env} {l : Label} {x y : World}

/-- Requests with the key that do not fail at an await. -/
def NoneFails (tenantId : Uuid) (key : String) (x : World) (l : Label) : Prop :=
  ∀ r q, l = .fail r → x.requests r = some (.ingest q) → ¬ q.Keyed tenantId key

/-- A request with the key gets to its endpoint query before an event with the key is committed. -/
def QueriesFirst (tenantId : Uuid) (key : String) (x : World) (l : Label) : Prop :=
  ∀ r ids q, l = .serve r ids → x.requests r = some (.ingest q) → q.Keyed tenantId key →
    q.pc = .queryEndpoints → Ingest.keyTaken x.store.db tenantId (some key) = false

/-- At most one open transaction has inserted the key, and at most one event has it. -/
structure KeyOnce (tenantId : Uuid) (key : String) (x : World) : Prop where
  holds : ∀ r q, x.requests r = some (.ingest q) → q.Keyed tenantId key → q.Inserting →
    (tenantId, key) ∈ x.store.db.reserved ∧ ∀ e ∈ x.core.events, ¬ e.Keyed tenantId key
  single : ∀ r r' q q', x.requests r = some (.ingest q) → x.requests r' = some (.ingest q') →
    q.Keyed tenantId key → q'.Keyed tenantId key → q.Inserting → q'.Inserting → r = r'
  once : (x.core.events.filter (fun e => e.Keyed tenantId key)).length ≤ 1

/-- The request of slot `r` goes on; what is required of it and of the others. -/
theorem KeyOnce.update {r : Nat} {q : Ingest} (old : KeyOnce tenantId key x)
    (requests : y.requests = Function.update x.requests r (some (.ingest q)))
    (mine : q.Keyed tenantId key → q.Inserting →
      (tenantId, key) ∈ y.store.db.reserved ∧ ∀ e ∈ y.core.events, ¬ e.Keyed tenantId key)
    (others : ∀ r' q', r' ≠ r → x.requests r' = some (.ingest q') →
      q'.Keyed tenantId key →
      q'.Inserting → ((tenantId, key) ∈ y.store.db.reserved ∧
        ∀ e ∈ y.core.events, ¬ e.Keyed tenantId key) ∧
          ¬ (q.Keyed tenantId key ∧ q.Inserting))
    (once : (y.core.events.filter (fun e => e.Keyed tenantId key)).length ≤ 1) :
    KeyOnce tenantId key y where
  holds := by
    intro r' q' running keyed inserting
    by_cases here : r' = r
    · subst here
      rw [requests, Function.update_self] at running
      cases running
      exact mine keyed inserting
    · rw [requests, Function.update_of_ne here] at running
      exact (others r' q' here running keyed inserting).1
  single := by
    intro r₁ r₂ q₁ q₂ running₁ running₂ keyed₁ keyed₂ inserting₁ inserting₂
    by_cases here₁ : r₁ = r
    · by_cases here₂ : r₂ = r
      · exact here₁.trans here₂.symm
      · subst here₁
        rw [requests, Function.update_self] at running₁
        rw [requests, Function.update_of_ne here₂] at running₂
        cases running₁
        exact absurd ⟨keyed₁, inserting₁⟩
          (others r₂ q₂ here₂ running₂ keyed₂ inserting₂).2
    · rw [requests, Function.update_of_ne here₁] at running₁
      by_cases here₂ : r₂ = r
      · subst here₂
        rw [requests, Function.update_self] at running₂
        cases running₂
        exact absurd ⟨keyed₂, inserting₂⟩
          (others r₁ q₁ here₁ running₁ keyed₁ inserting₁).2
      · rw [requests, Function.update_of_ne here₂] at running₂
        exact old.single r₁ r₂ q₁ q₂ running₁ running₂ keyed₁ keyed₂
          inserting₁ inserting₂
  once := once

/-- A step that writes no event and gives up no reservation of the key. -/
theorem KeyOnce.kept {r : Nat} {q : Ingest} {pc : IngestPc} (old : KeyOnce tenantId key x)
    (running : x.requests r = some (.ingest q))
    (requests : y.requests = Function.update x.requests r (some (.ingest { q with pc := pc })))
    (inserting : Ingest.Inserting { q with pc := pc } → q.Inserting)
    (reserved : (tenantId, key) ∈ x.store.db.reserved → (tenantId, key) ∈ y.store.db.reserved)
    (events : y.core.events = x.core.events) : KeyOnce tenantId key y := by
  refine old.update requests (fun keyed now => ?_) (fun r' q' other running' keyed now => ?_) ?_
  · have before := old.holds r q running keyed (inserting now)
    exact ⟨reserved before.1, events ▸ before.2⟩
  · have before := old.holds r' q' running' keyed now
    refine ⟨⟨reserved before.1, events ▸ before.2⟩, fun mine => other ?_⟩
    exact old.single r' r q' q running' running keyed mine.1 now (inserting mine.2)
  · exact events ▸ old.once

/-- The open transaction with the key ends: there is no other. -/
theorem KeyOnce.ended {r : Nat} {q : Ingest} {pc : IngestPc} (old : KeyOnce tenantId key x)
    (running : x.requests r = some (.ingest q)) (keyed : q.Keyed tenantId key)
    (inserting : q.Inserting)
    (requests : y.requests = Function.update x.requests r (some (.ingest { q with pc := pc })))
    (ends : ¬ Ingest.Inserting { q with pc := pc })
    (once : (y.core.events.filter (fun e => e.Keyed tenantId key)).length ≤ 1) :
    KeyOnce tenantId key y := by
  refine old.update requests (fun _ now => absurd now ends)
    (fun r' q' other running' keyed' now => ?_) once
  exact absurd (old.single r' r q' q running' running keyed' keyed now inserting) other

theorem KeyOnce.step (old : KeyOnce tenantId key x) (tracked : Tracked x)
    (next : World.step env l x = some y) : KeyOnce tenantId key y := by
  have change := step_change next
  -- an open transaction that ends without a commit gives up its own key at most
  have abandoned : ∀ {r q pc}, x.requests r = some (.ingest q) → q.Inserting →
      y.requests = Function.update x.requests r (some (.ingest { q with pc := pc })) →
      ¬ Ingest.Inserting { q with pc := pc } → y.store = Ingest.abandon x.store q →
      KeyOnce tenantId key y := by
    intro r q pc running inserting requests ends store
    have events : y.core.events = x.core.events := by
      rw [World.core, store, Ingest.core_abandon]
    by_cases keyed : q.Keyed tenantId key
    · exact old.ended running keyed inserting requests ends (events ▸ old.once)
    · refine old.kept running requests (fun now => absurd now ends) (fun held => ?_) events
      rw [store]
      exact mem_unreserve keyed held
  cases step_ingests next with
  | none reserved other requests =>
    have events := (change.idles other).events
    refine ⟨fun r q running keyed now => ?_, fun r r' q q' running running' => ?_, ?_⟩
    · have before := old.holds r q ((requests r q).mp running) keyed now
      exact ⟨reserved ▸ before.1, events ▸ before.2⟩
    · exact old.single r r' q q' ((requests r q).mp running) ((requests r' q').mp running')
    · exact events ▸ old.once
  | @arrive r tenantId' body label reserved _ requests =>
    subst label
    have events := (change.idles (fun _ _ _ same => by cases same)).events
    have ends : ¬ (Ingest.start tenantId' body).Inserting := by
      by_cases given : body.idempotencyKey.isSome = true <;>
        simp [Ingest.Inserting, Ingest.start, given]
    refine old.update requests (fun _ now => absurd now ends)
      (fun r' q' _ running keyed now => ⟨?_, fun mine => ends mine.2⟩) (events ▸ old.once)
    have before := old.holds r' q' running keyed now
    exact ⟨reserved ▸ before.1, events ▸ before.2⟩
  | @fail r q q' label running failed requests =>
    obtain ⟨rfl, ⟨inserting, store⟩ | ⟨idle, store⟩⟩ := Ingest.fail_steps failed
    · exact abandoned running inserting requests id store
    · refine old.kept running requests (fun now => absurd now id) (fun held => ?_) ?_
      · rw [store]
        exact held
      · rw [World.core, store]
  | @serve r ids q q' label running step requests =>
    obtain ⟨pc', rfl, steps⟩ := Ingest.step_steps step
    have tracks := tracked r q running
    generalize store : y.store = s at steps
    have core : y.core = s.core := congrArg Store.core store
    cases steps with
    | found | missing | taken | finish =>
      refine old.kept running requests (fun now => absurd now not_false) (fun held => ?_)
        (congrArg Core.events core :)
      rw [store]
      exact held
    | conflict pc =>
      refine old.kept running requests (fun _ => ?_) (fun held => ?_) (congrArg Core.events core :)
      · unfold Ingest.Inserting
        rw [pc]
        trivial
      · rw [store]
        exact held
    | @exec id c rest pc =>
      refine old.kept running requests (fun now => absurd now not_false) (fun held => ?_) ?_
      · rw [store, Command.reserved_exec]
        exact held
      · rw [core, Store.core_exec]
        cases c <;> rfl
    | rollback pc =>
      refine abandoned running ?_ requests id store
      unfold Ingest.Inserting
      rw [pc]
      trivial
    | insert pc free unreserved =>
      have events : y.core.events = x.core.events := by
        rw [core, Ingest.core_insert]
        rfl
      refine old.update requests (fun keyed _ => ?_) (fun r' q' _ running' keyed' now => ?_)
        (events ▸ old.once)
      · rw [keyed.1, keyed.2] at free
        rw [store, keyed.1, keyed.2, events]
        refine ⟨List.mem_cons_self, fun e listed mine => ?_⟩
        have taken := keyTaken_iff.mpr ⟨e, listed, mine⟩
        rw [free] at taken
        cases taken
      · have before := old.holds r' q' running' keyed' now
        refine ⟨⟨?_, events ▸ before.2⟩, fun mine => unreserved ?_⟩
        · rw [store]
          exact mem_reserve before.1
        · have keyed : q.Keyed tenantId key := mine.1
          rw [keyed.1, keyed.2]
          exact before.1
    | @commit event endpoints deliveries pc =>
      have inserting : q.Inserting := by
        unfold Ingest.Inserting
        rw [pc]
        trivial
      unfold Ingest.Tracks at tracks
      simp only [pc] at tracks
      have events : y.core.events = x.core.events ++ [event] := by
        rw [core, Ingest.core_commitEvent]
        rfl
      by_cases keyed : q.Keyed tenantId key
      · refine old.ended running keyed inserting requests not_false ?_
        have before : x.core.events.filter (fun e => e.Keyed tenantId key) = [] :=
          List.filter_eq_nil_iff.mpr (fun e listed => by
            simpa using (old.holds r q running keyed inserting).2 e listed)
        rw [events, List.filter_append, before, List.nil_append]
        exact List.length_filter_le _ _
      · have foreign : ¬ event.Keyed tenantId key := fun mine =>
          keyed ⟨tracks.1.symm.trans mine.1, tracks.2.1.symm.trans mine.2⟩
        refine old.update requests (fun mine _ => absurd mine keyed)
          (fun r' q' _ running' keyed' now => ⟨⟨?_, ?_⟩, fun mine => keyed mine.1⟩) ?_
        · rw [store]
          exact mem_unreserve foreign (old.holds r' q' running' keyed' now).1
        · rw [events]
          intro e listed
          rcases List.mem_append.mp listed with older | last
          · exact (old.holds r' q' running' keyed' now).2 e older
          · exact List.mem_singleton.mp last ▸ foreign
        · rw [events, List.filter_append, List.filter_singleton]
          simpa [foreign] using old.once

/-- Endpoints are not deleted: the rows that a request is about to insert name endpoints. -/
theorem Consistent.foreignKeysHold (inv : Consistent env x) {r : Nat} {q : Ingest} {event : Event}
    {endpoints : List Endpoint} {deliveries : List Delivery}
    (running : x.requests r = some (.ingest q)) (pc : q.pc = .commit event endpoints deliveries) :
    Ingest.ForeignKeysHold x.store.db deliveries := by
  have fansOut := inv.fansOut r _ running
  have sound := inv.jobs r _ running
  simp only [Request.job, Ingest.job, pc, Job.FansOut, Job.Sound] at fansOut sound
  obtain ⟨ids, _, rfl⟩ := fansOut
  intro d listed
  obtain ⟨_, _, e, fanned, same⟩ := Ingest.mem_newDeliveries listed
  have ordering := sound e fanned
  rw [Store.core_orderings] at ordering
  obtain ⟨e', found, _⟩ := Option.map_eq_some_iff.mp ordering
  rw [same, found]
  rfl

def OnCourse (tenantId : Uuid) (key : String) (x : World) : Prop :=
  ∀ r q, x.requests r = some (.ingest q) → q.Keyed tenantId key → q.OnCourse

theorem OnCourse.step (old : OnCourse tenantId key x) (inv : Consistent env x)
    (none_fails : NoneFails tenantId key x l) (queries_first : QueriesFirst tenantId key x l)
    (next : World.step env l x = some y) : OnCourse tenantId key y := by
  have updated : ∀ {r : Nat} {q : Ingest},
      y.requests = Function.update x.requests r (some (.ingest q)) →
      (q.Keyed tenantId key → q.OnCourse) → OnCourse tenantId key y := by
    intro r q requests mine r' q' running
    by_cases here : r' = r
    · subst here
      rw [requests, Function.update_self] at running
      cases running
      exact mine
    · rw [requests, Function.update_of_ne here] at running
      exact old r' q' running
  cases step_ingests next with
  | none _ _ requests => exact fun r q running => old r q ((requests r q).mp running)
  | @arrive r tenantId' body _ _ _ requests =>
    refine updated requests (fun _ => ?_)
    by_cases given : body.idempotencyKey.isSome = true <;>
      simp [Ingest.OnCourse, Ingest.start, given]
  | @fail r q q' label running failed requests =>
    refine updated requests (fun keyed => ?_)
    rw [(Ingest.fail_steps failed).1] at keyed
    exact absurd keyed (none_fails r q label running)
  | @serve r ids q q' label running step requests =>
    obtain ⟨pc', rfl, steps⟩ := Ingest.step_steps step
    refine updated requests (fun keyed => ?_)
    have before := old r q running keyed
    unfold Ingest.OnCourse at before
    generalize y.store = s at steps
    cases steps with
    | found | missing | insert | commit | exec | finish => trivial
    | rollback pc =>
      simp only [pc] at before
    | taken pc taken =>
      have first := queries_first r ids q label running keyed pc
      have mine : q.Keyed tenantId key := keyed
      rw [mine.1, mine.2, first] at taken
      cases taken
    | conflict pc missing => exact absurd (inv.foreignKeysHold running pc) missing

/-! The query of the request that commits -/

def Unraced (tenantId : Uuid) (key : String) (x : World) (l : Label) : Prop :=
  NoneFails tenantId key x l ∧ QueriesFirst tenantId key x l

/-- In a run that ends in `x`, the endpoint query of a request with the key was answered in `w`,
for the insert of this event. -/
structure Queried (env : Env) (tenantId : Uuid) (key : String) (start : World) (event : Event)
    (w x : World) : Prop where
  before : Run (World.step env) (Unraced tenantId key) start w
  query : ∃ r ids q w' deliveries, w.requests r = some (.ingest q) ∧ q.Keyed tenantId key ∧
    q.pc = .queryEndpoints ∧ World.step env (.serve r ids) w = some w' ∧
    w'.requests r = some (.ingest { q with
      pc := .commit event (Ingest.fanOut w.store.db tenantId event.eventType) deliveries }) ∧
    Run (World.step env) (Unraced tenantId key) w' x

theorem Queried.tail {start w : World} {event : Event}
    (queried : Queried env tenantId key start event w x) (admitted : Unraced tenantId key x l)
    (next : World.step env l x = some y) : Queried env tenantId key start event w y where
  before := queried.before
  query := by
    obtain ⟨r, ids, q, w', deliveries, running, keyed, pc, step, goes, run⟩ := queried.query
    exact ⟨r, ids, q, w', deliveries, running, keyed, pc, step, goes, run.tail admitted next⟩

/-- The endpoints of an event's rows, in the order of the table. -/
def rowsOf (c : Core) (eventId : Uuid) : List Uuid :=
  (c.listing.filter (fun f => f.eventId = eventId)).map Fields.endpointId

/-- Rows and rows to come are those that the query of the committing request found. -/
structure FannedOut (env : Env) (tenantId : Uuid) (key : String) (start x : World) : Prop where
  inserting : ∀ r q event endpoints deliveries, x.requests r = some (.ingest q) →
    q.Keyed tenantId key → q.pc = .commit event endpoints deliveries →
    ∃ w, Queried env tenantId key start event w x ∧
      endpoints = Ingest.fanOut w.store.db tenantId event.eventType
  rows : ∀ e ∈ x.core.events, e.Keyed tenantId key →
    ∃ w, Queried env tenantId key start e w x ∧
      rowsOf x.core e.id = (Ingest.fanOut w.store.db tenantId e.eventType).map Endpoint.id

theorem map_endpointId_newDeliveries {eventId : Uuid} {ids : List Uuid} {endpoints : List Endpoint}
    (drawn : ids.length = endpoints.length) :
    (Ingest.newDeliveries eventId ids endpoints).map Delivery.endpointId =
      endpoints.map Endpoint.id := by
  unfold Ingest.newDeliveries
  induction ids generalizing endpoints with
  | nil =>
    have none : endpoints = [] := List.eq_nil_of_length_eq_zero drawn.symm
    rw [none]
    rfl
  | cons id rest ih =>
    cases endpoints with
    | nil => cases drawn
    | cons e tail => exact congrArg (e.id :: ·) (ih (Nat.succ.inj drawn))

theorem FannedOut.inserting_step {start : World} (old : FannedOut env tenantId key start x)
    (before : Run (World.step env) (Unraced tenantId key) start x)
    (admitted : Unraced tenantId key x l) (next : World.step env l x = some y) :
    ∀ r q event endpoints deliveries, y.requests r = some (.ingest q) →
      q.Keyed tenantId key → q.pc = .commit event endpoints deliveries →
      ∃ w, Queried env tenantId key start event w y ∧
        endpoints = Ingest.fanOut w.store.db tenantId event.eventType := by
  have kept : ∀ {r q event endpoints deliveries}, x.requests r = some (.ingest q) →
      q.Keyed tenantId key → q.pc = .commit event endpoints deliveries →
      ∃ w, Queried env tenantId key start event w y ∧
        endpoints = Ingest.fanOut w.store.db tenantId event.eventType := by
    intro r q event endpoints deliveries running keyed pc
    obtain ⟨w, queried, same⟩ := old.inserting r q event endpoints deliveries running keyed pc
    exact ⟨w, queried.tail admitted next, same⟩
  intro r q event endpoints deliveries running keyed pc
  cases step_ingests next with
  | none _ _ requests => exact kept ((requests r q).mp running) keyed pc
  | @arrive r' tenantId' body _ _ _ requests =>
    by_cases here : r = r'
    · subst here
      rw [requests, Function.update_self] at running
      cases running
      by_cases given : body.idempotencyKey.isSome = true <;> simp [Ingest.start, given] at pc
    · rw [requests, Function.update_of_ne here] at running
      exact kept running keyed pc
  | @fail r' q₀ q' _ _ failed requests =>
    by_cases here : r = r'
    · subst here
      rw [requests, Function.update_self] at running
      cases running
      rw [(Ingest.fail_steps failed).1] at pc
      cases pc
    · rw [requests, Function.update_of_ne here] at running
      exact kept running keyed pc
  | @serve r' ids q₀ q' label found step requests =>
    by_cases here : r = r'
    · subst here
      rw [requests, Function.update_self] at running
      cases running
      obtain ⟨pc', rfl, steps⟩ := Ingest.step_steps step
      change pc' = _ at pc
      subst pc
      generalize y.store = s at steps
      cases steps with
      | @insert eventId drawn pc =>
        have mine : q₀.Keyed tenantId key := keyed
        have fanned : Ingest.fanOut x.store.db tenantId q₀.body.eventType =
            Ingest.fanOut x.store.db q₀.tenantId q₀.body.eventType := by rw [mine.1]
        subst label
        refine ⟨x, ⟨before, r, ids, q₀, y, Ingest.newDeliveries eventId drawn
          (Ingest.fanOut x.store.db q₀.tenantId q₀.body.eventType), found, mine, pc, next, ?_,
          .refl⟩, fanned.symm⟩
        rw [requests, Function.update_self, fanned]
    · rw [requests, Function.update_of_ne here] at running
      exact kept running keyed pc

theorem FannedOut.rows_step {start : World} (old : FannedOut env tenantId key start x)
    (inv : Consistent env x) (tracked : Tracked x) (admitted : Unraced tenantId key x l)
    (next : World.step env l x = some y) : ∀ e ∈ y.core.events, e.Keyed tenantId key →
      ∃ w, Queried env tenantId key start e w y ∧
        rowsOf y.core e.id = (Ingest.fanOut w.store.db tenantId e.eventType).map Endpoint.id := by
  have kept : ∀ e ∈ x.core.events, e.Keyed tenantId key →
    rowsOf y.core e.id = rowsOf x.core e.id →
      ∃ w, Queried env tenantId key start e w y ∧
        rowsOf y.core e.id = (Ingest.fanOut w.store.db tenantId e.eventType).map Endpoint.id := by
    intro e listed keyed same
    obtain ⟨w, queried, rows⟩ := old.rows e listed keyed
    exact ⟨w, queried.tail admitted next, same.trans rows⟩
  intro e listed keyed
  cases step_appends next with
  | none listing events =>
    exact kept e (events ▸ listed) keyed (by rw [rowsOf, rowsOf, listing])
  | append _ _ _ _ core =>
    rw [core] at listed
    exact kept e listed keyed (by rw [core]; rfl)
  | @commit r q event endpoints deliveries running pc _ _ core =>
    obtain ⟨_, _, apart⟩ := inv.not_listed running pc
    have drawn := inv.allocated.drawn r event.id
    have fansOut := inv.fansOut r _ running
    have tracks := tracked r q running
    unfold Ingest.Tracks at tracks
    rw [drawn_running env running] at drawn
    simp only [Request.job, Ingest.job, pc, Job.drawn, Job.FansOut] at drawn fansOut tracks
    obtain ⟨ids, length, rfl⟩ := fansOut
    have listing : y.core.listing = x.core.listing ++
        (Ingest.newDeliveries event.id ids endpoints).map Delivery.fields := by
      rw [core]
      simp only [Core.listing, Core.commitEvent, List.map_append]
    have own : ∀ f ∈ (Ingest.newDeliveries event.id ids endpoints).map Delivery.fields,
        f.eventId = event.id := by
      intro f added
      obtain ⟨d, member, rfl⟩ := List.mem_map.mp added
      exact tracks.2.2 d member
    rw [core] at listed
    rcases List.mem_append.mp listed with older | last
    · have ne : event.id ≠ e.id := fun same =>
        (drawn List.mem_cons_self).2 (List.mem_append_left _ (same ▸ List.mem_map_of_mem older))
      refine kept e older keyed ?_
      have others : ((Ingest.newDeliveries event.id ids endpoints).map Delivery.fields).filter
          (fun f => f.eventId = e.id) = [] :=
        List.filter_eq_nil_iff.mpr (fun f added => by simp [own f added, ne])
      rw [rowsOf, listing, List.filter_append, others, List.append_nil]
      rfl
    · rw [List.mem_singleton] at last
      subst last
      have mine : q.Keyed tenantId key :=
        ⟨tracks.1.symm.trans keyed.1, tracks.2.1.symm.trans keyed.2⟩
      obtain ⟨w, queried, fanned⟩ := old.inserting r q e endpoints _ running mine pc
      refine ⟨w, queried.tail admitted next, ?_⟩
      have none : x.core.listing.filter (fun f => f.eventId = e.id) = [] :=
        List.filter_eq_nil_iff.mpr (fun f there => by simpa using apart f there)
      have all : ((Ingest.newDeliveries e.id ids endpoints).map Delivery.fields).filter
          (fun f => f.eventId = e.id) = (Ingest.newDeliveries e.id ids endpoints).map
            Delivery.fields :=
        List.filter_eq_self.mpr (fun f added => decide_eq_true (own f added))
      rw [rowsOf, listing, List.filter_append, none, List.nil_append, all, List.map_map, ← fanned]
      exact map_endpointId_newDeliveries length

/-- All that is kept along a run in which no request with the key loses a race. -/
structure Ingested (env : Env) (tenantId : Uuid) (key : String) (start x : World) : Prop where
  run : Run (World.step env) (Unraced tenantId key) start x
  inv : Consistent env x
  tracked : Tracked x
  keyOnce : KeyOnce tenantId key x
  onCourse : OnCourse tenantId key x
  fannedOut : FannedOut env tenantId key start x
  appendsOnce : AppendsOnce x
  promised : Promised env tenantId key x

theorem Ingested.step {start : World} (old : Ingested env tenantId key start x)
    (admitted : Unraced tenantId key x l) (next : World.step env l x = some y) :
    Ingested env tenantId key start y where
  run := old.run.tail admitted next
  inv := old.inv.step (step_change next)
  tracked := old.tracked.step old.inv next
  keyOnce := old.keyOnce.step old.tracked next
  onCourse := old.onCourse.step old.inv admitted.1 admitted.2 next
  fannedOut := ⟨old.fannedOut.inserting_step old.run admitted next,
    old.fannedOut.rows_step old.inv old.tracked admitted next⟩
  appendsOnce := old.appendsOnce.step old.tracked old.inv (step_appends next)
  promised := by
    refine old.promised.step old.tracked old.inv (fun r q label running keyed => ?_)
      (step_change next) (step_appends next)
    exact absurd keyed (admitted.1 r q label running)

theorem ingested_initial (env : Env) (tenantId : Uuid) (key : String) (shardOf : Nat → Nat) :
    Ingested env tenantId key (initial shardOf) (initial shardOf) where
  run := .refl
  inv := consistent_initial env shardOf
  tracked := tracked_initial shardOf
  keyOnce := by
    refine ⟨?_, ?_, Nat.zero_le 1⟩
    · intro r q running
      cases running
    · intro r r' q q' running
      cases running
  onCourse := by
    intro r q running
    cases running
  fannedOut := by
    refine ⟨?_, fun _ listed => absurd listed List.not_mem_nil⟩
    intro r q event endpoints deliveries running
    cases running
  appendsOnce := appendsOnce_initial shardOf
  promised := fun _ listed => absurd listed List.not_mem_nil

theorem ingested_run {shardOf : Nat → Nat}
    (run : Run (World.step env) (Unraced tenantId key) (initial shardOf) x) :
    Ingested env tenantId key (initial shardOf) x :=
  run.invariant (ingested_initial env tenantId key shardOf)
    (fun old admitted next => old.step admitted next)

theorem rowsOf_eq (x : World) (eventId : Uuid) : rowsOf x.core eventId =
    (x.store.db.deliveries.filter (fun d => d.eventId = eventId)).map Delivery.endpointId := by
  unfold rowsOf Core.listing
  rw [List.filter_map, List.map_map]
  rfl

/-- The fan-out query returns no endpoint twice. -/
theorem Queried.distinct {shardOf : Nat → Nat} {event : Event} {w : World}
    (queried : Queried env tenantId key (initial shardOf) event w x) (eventType : String) :
    ((Ingest.fanOut w.store.db tenantId eventType).map Endpoint.id).Nodup := by
  have keys := (consistent_run queried.before).allocated.endpoints
  have ids : w.core.endpoints.map Prod.fst = w.store.db.endpoints.map Endpoint.id := List.map_map
  rw [ids] at keys
  exact keys.sublist ((List.filter_sublist.trans List.filter_sublist).map _)

/-- Where no request with the key loses a race after its lookup: one event, which every
request returns, with a row for every endpoint that the query of the winner found, each of
them appended once. -/
theorem idempotent_ingestion {shardOf : Nat → Nat}
    (run : Run (World.step env) (Unraced tenantId key) (initial shardOf) x) :
    (x.store.db.events.filter (fun e => e.Keyed tenantId key)).length ≤ 1 ∧
      (∀ r q, x.requests r = some (.ingest q) → q.Keyed tenantId key → q.Finished →
        ∃ e ∈ x.store.db.events, e.Keyed tenantId key ∧ q.pc = .accepted e.id) ∧
      ∀ e ∈ x.store.db.events, e.Keyed tenantId key →
        (∃ w, Queried env tenantId key (initial shardOf) e w x ∧
          (x.store.db.deliveries.filter (fun d => d.eventId = e.id)).map Delivery.endpointId =
            (Ingest.fanOut w.store.db tenantId e.eventType).map Endpoint.id ∧
          ((Ingest.fanOut w.store.db tenantId e.eventType).map Endpoint.id).Nodup) ∧
        ∀ d ∈ x.store.db.deliveries, d.eventId = e.id →
          x.store.log.count (.xadd .ingest d.fields) ≤ 1 ∧
          ((∀ r q, x.requests r = some (.ingest q) → q.Keyed tenantId key → q.Finished) →
            x.store.log.count (.xadd .ingest d.fields) = 1) := by
  have now := ingested_run run
  refine ⟨now.keyOnce.once, fun r q running keyed finished => ?_,
    fun e listed keyed => ⟨?_, ?_⟩⟩
  · have course := now.onCourse r q running keyed
    have tracks := now.tracked r q running
    unfold Ingest.Finished at finished
    unfold Ingest.OnCourse at course
    unfold Ingest.Tracks at tracks
    cases pc : q.pc with
    | accepted id =>
      simp only [pc] at tracks
      obtain ⟨event, found, tenant, eventKey⟩ := tracks
      have same : event.id = id := Table.get_key found
      exact ⟨event, Table.get_mem found, ⟨tenant.trans keyed.1, eventKey.trans keyed.2⟩,
        by rw [same]⟩
    | failed reason => simp only [pc] at course
    | _ => simp only [pc] at finished
  · obtain ⟨w, queried, rows⟩ := now.fannedOut.rows e listed keyed
    exact ⟨w, queried, (rowsOf_eq x e.id).symm.trans rows, queried.distinct e.eventType⟩
  · intro d row same
    have atMost := now.appendsOnce.atMost d.fields
    refine ⟨atMost, fun idle => Nat.le_antisymm atMost ?_⟩
    have found : x.core.event d.fields.eventId = some e := by
      change x.core.event d.eventId = some e
      rw [same]
      exact now.inv.allocated.event listed
    rcases now.promised d.fields (List.mem_map_of_mem row) e found keyed with
      ⟨r, promise⟩ | appended
    · obtain ⟨_, q, running, ofRequest, commands, pc, _⟩ := now.tracked.left promise
      have finished := idle r q running (ofRequest.keyed found keyed)
      simp only [Ingest.Finished, pc] at finished
    · obtain ⟨recent, older, log, _⟩ := appended.logged
      have logged : LogEntry.xadd .ingest d.fields ∈ x.store.log := by
        change _ ∈ x.core.log
        rw [log]
        exact List.mem_append_right _ List.mem_cons_self
      exact List.count_pos_iff.mpr logged

/-! Two requests one after the other, and two at once -/

def unraced (x : World) : Label → Bool
  | .fail _ => false
  | .serve r _ =>
    match x.requests r with
    | some (.ingest q) =>
      decide (q.pc ≠ .queryEndpoints ∨ Ingest.keyTaken x.store.db 2 (some "key") = false)
    | _ => true
  | _ => true

theorem unraced_sound {x : World} {l : Label} (checked : unraced x l = true) :
    Unraced 2 "key" x l := by
  refine ⟨?_, ?_⟩
  · rintro r q rfl
    cases checked
  · rintro r ids q rfl running _ pc
    simp only [unraced, running, decide_eq_true_eq] at checked
    exact checked.resolve_left (fun other => other pc)

theorem idempotent_ingestion_repeated : ∃ x : World,
    Run (World.step headerless) (Unraced 2 "key") (initial (fun _ => 3)) x ∧
      x.requests 0 = some (.ingest ⟨2, keyedEvent, .accepted 10⟩) ∧
      x.requests 1 = some (.ingest ⟨2, keyedEvent, .accepted 10⟩) ∧
      ∃ e ∈ x.store.db.events, e.Keyed 2 "key" ∧ e.id = 10 ∧
        ∀ d ∈ x.store.db.deliveries,
        d.eventId = 10 → x.store.log.count (.xadd .ingest d.fields) ≤ 1 := by
  have evaluates : (exec (World.step headerless) unraced
      (committed queueShop ++ serves 0 3 ++ repeated) (initial (fun _ => 3))).elim false
      (fun x => acceptedWith 10 (x.requests 0) && acceptedWith 10 (x.requests 1)) = true := by
    decide +kernel
  obtain ⟨x, executed, passes⟩ := reached evaluates
  simp only [Bool.and_eq_true] at passes
  have run := run_of_exec (fun _ _ checked => unraced_sound checked) executed
  obtain ⟨_, returned, single⟩ := idempotent_ingestion run
  have first := acceptedWith_sound passes.1
  obtain ⟨e, listed, keyed, pc⟩ := returned 0 _ first ⟨rfl, rfl⟩ trivial
  have id : e.id = 10 := (IngestPc.accepted.inj pc).symm
  refine ⟨x, run, first, acceptedWith_sound passes.2, e, listed, keyed, id,
    fun d row same => ?_⟩
  exact ((single e listed keyed).2 d row (same.trans id.symm)).1

/-- Both requests look the key up before one of them commits. The other one fails at its
endpoint query, although the event is there. -/
def racing : List Label :=
  [.createTenant { id := 2 }, .createEndpoint shop, .arrive 0 (.ingest 2 keyedEvent),
    .arrive 1 (.ingest 2 keyedEvent), .serve 0 [], .serve 1 [], .serve 0 [10, 11], .serve 0 [],
    .serve 1 [12, 13]]

def refused : Option Request → Bool
  | some (.ingest q) => decide (q = ⟨2, keyedEvent, .failed .integrityError⟩)
  | _ => false

theorem refused_sound {o : Option Request} (checked : refused o = true) :
    o = some (.ingest ⟨2, keyedEvent, .failed .integrityError⟩) := by
  unfold refused at checked
  split at checked
  · rw [of_decide_eq_true checked]
  · cases checked

theorem idempotent_ingestion_race : ∃ x : World,
    Run (World.step headerless) (NoneFails 2 "key") (initial (fun _ => 3)) x ∧
      (∃ e ∈ x.store.db.events, e.Keyed 2 "key") ∧
      ¬ ∀ r q, x.requests r = some (.ingest q) → q.Keyed 2 "key" → q.Finished →
        ∃ e ∈ x.store.db.events, e.Keyed 2 "key" ∧ q.pc = .accepted e.id := by
  have evaluates : (exec (World.step headerless) unfailed racing (initial (fun _ => 3))).elim false
      (fun x => refused (x.requests 1) &&
        decide (∃ e ∈ x.store.db.events, e.Keyed 2 "key")) = true := by
    decide +kernel
  obtain ⟨x, executed, passes⟩ := reached evaluates
  simp only [Bool.and_eq_true, decide_eq_true_eq] at passes
  have sound : ∀ x l, unfailed x l = true → NoneFails 2 "key" x l := by
    rintro x l checked r q rfl
    cases checked
  refine ⟨x, run_of_exec sound executed, passes.2, fun all => ?_⟩
  obtain ⟨e, _, _, pc⟩ := all 1 _ (refused_sound passes.1) ⟨rfl, rfl⟩ trivial
  cases pc

end World

end Relay
