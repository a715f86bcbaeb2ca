import Relay.Api.Routes

/-!
# The part of the store that belongs to a tenant

Its endpoints and events, and everything that names one of its endpoints: rows,
stream entries, ordered lists, retries and breakers. Each write of a handler is
described by what it does to the part of the tenant that owns the endpoint it
names, and it does nothing to the part of any other tenant.
-/

namespace Relay.Api

open Enqueue RetryQueue CircuitBreaker

/-- The tenant owns the endpoint of this id. -/
def owns (db : Db) (tenantId endpointId : Uuid) : Bool :=
  db.endpoints.any (fun e => e.id = endpointId ∧ e.tenantId = tenantId)

@[ext] structure Part where
  endpoints : List Endpoint
  events : List Event
  deliveries : List Delivery
  attempts : List DeliveryAttempt
  diagnoses : List Diagnosis
  actions : List AgentAction
  entries : Nat → List Fields
  ordered : Uuid → List Uuid
  retries : ZSet Member
  breakers : Uuid → Breaker

/-- What is seen of the tables and queues through a test of endpoint ids. -/
def view (own : Uuid → Bool) (tenantId : Uuid) (s : Store) : Part where
  endpoints := s.db.endpoints.filter (fun e => e.tenantId = tenantId)
  events := s.db.events.filter (fun v => v.tenantId = tenantId)
  deliveries := s.db.deliveries.filter (fun d => own d.endpointId)
  attempts := s.db.attempts.filter (fun a =>
    a.deliveryId ∈ (s.db.deliveries.filter (fun d => own d.endpointId)).map Delivery.id)
  diagnoses := s.db.diagnoses.filter (fun g => own g.endpointId)
  actions := s.db.actions.filter (fun a => own a.endpointId)
  entries n := (s.queues.streams n).entries.filter (fun f => own f.endpointId)
  ordered id := if own id then s.ordered id else []
  retries := s.queues.retries.keep (fun e => own e.1.endpointId)
  breakers id := if own id then s.breakers id else {}

def partOf (tenantId : Uuid) (s : Store) : Part := view (owns s.db tenantId) tenantId s

/-- Rows join rows of one tenant, and no table has a key twice. -/
structure Tidy (db : Db) : Prop where
  endpointKeys : (db.endpoints.map Endpoint.id).Nodup
  deliveryKeys : (db.deliveries.map Delivery.id).Nodup
  diagnosisKeys : (db.diagnoses.map Diagnosis.id).Nodup
  actionKeys : (db.actions.map AgentAction.id).Nodup
  deliveries : ∀ d ∈ db.deliveries, ∃ e ∈ db.endpoints, ∃ v ∈ db.events,
    e.id = d.endpointId ∧ v.id = d.eventId ∧ v.tenantId = e.tenantId
  eventKeys : (db.events.map Event.id).Nodup
  attempts : ∀ a ∈ db.attempts, ∃ d ∈ db.deliveries, d.id = a.deliveryId
  diagnoses : ∀ g ∈ db.diagnoses, ∃ e ∈ db.endpoints, e.id = g.endpointId
  actions : ∀ a ∈ db.actions, ∃ g ∈ db.diagnoses,
    g.id = a.diagnosisId ∧ g.endpointId = a.endpointId

/-- An id that nothing in the store names. -/
structure Unused (s : Store) (id : Uuid) : Prop where
  endpoint : id ∉ s.db.endpoints.map Endpoint.id
  event : id ∉ s.db.events.map Event.id
  delivery : id ∉ s.db.deliveries.map Delivery.id
  ordered : s.ordered id = []
  breaker : s.breakers id = {}
  entries : ∀ n, ∀ f ∈ (s.queues.streams n).entries, f.endpointId ≠ id
  retries : ∀ e ∈ s.queues.retries.entries, e.1.endpointId ≠ id

section Ownership

variable {db : Db} {s s₁ s₂ : Store} {t t' id : Uuid}

theorem owns_iff :
    owns db t id = true ↔ ∃ e ∈ db.endpoints, e.id = id ∧ e.tenantId = t := by
  simp only [owns, List.any_eq_true, decide_eq_true_eq]

theorem mem_tenantEndpointIds : id ∈ db.tenantEndpointIds t ↔ owns db t id = true := by
  rw [owns_iff]
  simp only [Db.tenantEndpointIds, List.mem_map, List.mem_filter, decide_eq_true_eq]
  constructor
  · rintro ⟨e, ⟨listed, mine⟩, same⟩
    exact ⟨e, listed, same, mine⟩
  · rintro ⟨e, listed, same, mine⟩
    exact ⟨e, ⟨listed, mine⟩, same⟩

/-- No endpoint has two owners. -/
theorem owns_unique (keys : (db.endpoints.map Endpoint.id).Nodup) (mine : owns db t id = true)
    (other : t' ≠ t) : owns db t' id = false := by
  rw [Bool.eq_false_iff]
  intro theirs
  obtain ⟨e, listed, key, tenant⟩ := owns_iff.mp mine
  obtain ⟨e', listed', key', tenant'⟩ := owns_iff.mp theirs
  have same : e = e' := List.inj_on_of_nodup_map keys listed listed' (key.trans key'.symm)
  exact other (tenant'.symm.trans (same ▸ tenant))

theorem tenantEndpointIds_partOf (s : Store) (t : Uuid) :
    s.db.tenantEndpointIds t = (partOf t s).endpoints.map Endpoint.id := rfl

/-- Tenants that see the same own the same. -/
theorem owns_congr (agree : partOf t s₁ = partOf t s₂) (id : Uuid) :
    owns s₁.db t id = owns s₂.db t id := by
  rw [Bool.eq_iff_iff, ← mem_tenantEndpointIds, ← mem_tenantEndpointIds,
    tenantEndpointIds_partOf, tenantEndpointIds_partOf, agree]

end Ownership

/-! Writes that leave the endpoints -/

section Writes

variable {s : Store} {t t' id : Uuid}

theorem part_resetBreaker (mine : owns s.db t id = true) :
    partOf t (s.resetBreaker id) =
      { partOf t s with
        breakers := Function.update (partOf t s).breakers id CircuitBreaker.reset } := by
  have seen : (fun i => if owns s.db t i then
        Function.update s.breakers id CircuitBreaker.reset i else {}) =
      Function.update (partOf t s).breakers id CircuitBreaker.reset := by
    funext i
    by_cases same : i = id
    · subst same
      simp [mine]
    · simp [same, partOf, view]
  exact congrArg (fun b => { partOf t s with breakers := b }) seen

theorem part_resetBreaker_other (notMine : owns s.db t id = false) :
    partOf t (s.resetBreaker id) = partOf t s := by
  have seen : (fun i => if owns s.db t i then
        Function.update s.breakers id CircuitBreaker.reset i else {}) =
      (partOf t s).breakers := by
    funext i
    by_cases same : i = id
    · subst same
      simp [notMine, partOf, view]
    · simp [same, partOf, view]
  exact congrArg (fun b => { partOf t s with breakers := b }) seen

/-- The endpoint that a command names. -/
def Command.endpointId : Command → Uuid
  | .zrem m => m.endpointId
  | .rpush endpointId _ => endpointId
  | .xadd f => f.endpointId

/-- What a command does to the part of the owner. -/
def Part.exec (streamShards : Nat) (p : Part) : Command → Part
  | .zrem m => { p with retries := p.retries.zrem m }
  | .rpush endpointId deliveryId =>
    { p with
      ordered :=
        Function.update p.ordered endpointId (p.ordered endpointId ++ [deliveryId]) }
  | .xadd f =>
    let shard := shardFor streamShards f.endpointId
    { p with entries := Function.update p.entries shard (p.entries shard ++ [f]) }

theorem ZSet.keep_zrem {z : ZSet Member} (m : Member) (test : Member × ℚ → Bool) :
    (z.zrem m).keep test = (z.keep test).zrem m :=
  ZSet.ext (List.filter_comm _ _ _)

theorem part_exec (streamShards : Nat) (source : Source) {c : Command}
    (mine : owns s.db t c.endpointId = true) :
    partOf t (c.exec streamShards source s) = (partOf t s).exec streamShards c := by
  cases c with
  | zrem m => exact congrArg (fun r => { partOf t s with retries := r }) (ZSet.keep_zrem m _)
  | rpush e d =>
    have seen : (fun i => if owns s.db t i then
          Function.update s.ordered e (s.ordered e ++ [d]) i else []) =
        Function.update (partOf t s).ordered e ((partOf t s).ordered e ++ [d]) := by
      funext i
      by_cases same : i = e
      · subst same
        have owned : owns s.db t i = true := mine
        simp [owned, partOf, view]
      · simp [same, partOf, view]
    exact congrArg (fun o => { partOf t s with ordered := o }) seen
  | xadd f =>
    have seen : (fun n => ((Function.update s.queues.streams (shardFor streamShards f.endpointId)
          ((s.queues.streams (shardFor streamShards f.endpointId)).xadd f)) n).entries.filter
            (fun f => owns s.db t f.endpointId)) =
        Function.update (partOf t s).entries (shardFor streamShards f.endpointId)
          ((partOf t s).entries (shardFor streamShards f.endpointId) ++ [f]) := by
      funext n
      by_cases same : n = shardFor streamShards f.endpointId
      · subst same
        have owned : owns s.db t f.endpointId = true := mine
        simp [StreamLog.xadd, List.filter_append, owned, partOf, view]
      · simp [same, partOf, view]
    exact congrArg (fun e => { partOf t s with entries := e }) seen

theorem part_exec_other (streamShards : Nat) (source : Source) {c : Command}
    (notMine : owns s.db t c.endpointId = false) :
    partOf t (c.exec streamShards source s) = partOf t s := by
  cases c with
  | zrem m =>
    have seen : (s.queues.retries.zrem m).keep (fun e => owns s.db t e.1.endpointId) =
        (partOf t s).retries := by
      rw [ZSet.keep_zrem]
      refine ZSet.zrem_of_not_mem (fun listed => ?_)
      obtain ⟨e, kept, rfl⟩ := List.mem_map.mp listed
      have owned := (List.mem_filter.mp kept).2
      rw [show owns s.db t e.1.endpointId = false from notMine] at owned
      cases owned
    exact congrArg (fun r => { partOf t s with retries := r }) seen
  | rpush e d =>
    have seen : (fun i => if owns s.db t i then
          Function.update s.ordered e (s.ordered e ++ [d]) i else []) = (partOf t s).ordered := by
      funext i
      by_cases same : i = e
      · subst same
        have unowned : owns s.db t i = false := notMine
        simp [unowned, partOf, view]
      · simp [same, partOf, view]
    exact congrArg (fun o => { partOf t s with ordered := o }) seen
  | xadd f =>
    have seen : (fun n => ((Function.update s.queues.streams (shardFor streamShards f.endpointId)
          ((s.queues.streams (shardFor streamShards f.endpointId)).xadd f)) n).entries.filter
            (fun f => owns s.db t f.endpointId)) = (partOf t s).entries := by
      funext n
      by_cases same : n = shardFor streamShards f.endpointId
      · subst same
        have unowned : owns s.db t f.endpointId = false := notMine
        simp [StreamLog.xadd, List.filter_append, unowned, partOf, view]
      · simp [same, partOf, view]
    exact congrArg (fun e => { partOf t s with entries := e }) seen

theorem exec_db (streamShards : Nat) (source : Source) (s : Store) (c : Command) :
    (c.exec streamShards source s).db = s.db := by
  cases c <;> rfl

theorem part_execAll (streamShards : Nat) (source : Source) {commands : List Command}
    (mine : ∀ c ∈ commands, owns s.db t c.endpointId = true) :
    partOf t (execAll streamShards source s commands) =
      commands.foldl (Part.exec streamShards) (partOf t s) := by
  unfold execAll
  induction commands generalizing s with
  | nil => rfl
  | cons c rest ih =>
    rw [List.foldl_cons, List.foldl_cons,
      ← part_exec streamShards source (mine c List.mem_cons_self)]
    refine ih (fun c' h => ?_)
    rw [exec_db]
    exact mine c' (List.mem_cons_of_mem _ h)

theorem part_execAll_other (streamShards : Nat) (source : Source) {commands : List Command}
    (notMine : ∀ c ∈ commands, owns s.db t c.endpointId = false) :
    partOf t (execAll streamShards source s commands) = partOf t s := by
  unfold execAll
  induction commands generalizing s with
  | nil => rfl
  | cons c rest ih =>
    rw [List.foldl_cons, ih, part_exec_other streamShards source (notMine c List.mem_cons_self)]
    intro c' h
    rw [exec_db]
    exact notMine c' (List.mem_cons_of_mem _ h)

/-- The columns that a requeue writes, in the part. -/
def Part.commitRequeued (p : Part) (rows : List Delivery) : Part :=
  { p with
    deliveries := rows.foldl (fun ds row =>
      Table.update Delivery.id ds row.id (row.flush (requeued row))) p.deliveries }

theorem part_commitDelivery (stage : Stage) (loaded current : Delivery) :
    partOf t (s.commitDelivery stage loaded current) =
      { partOf t s with
        deliveries := Table.update Delivery.id (partOf t s).deliveries loaded.id
          (loaded.flush current) } := by
  have seen : (Table.update Delivery.id s.db.deliveries loaded.id (loaded.flush current)).filter
        (fun d => owns s.db t d.endpointId) =
      Table.update Delivery.id (partOf t s).deliveries loaded.id (loaded.flush current) :=
    Table.view_update (fun _ => rfl)
  have keys : (Table.update Delivery.id (partOf t s).deliveries loaded.id
      (loaded.flush current)).map Delivery.id = (partOf t s).deliveries.map Delivery.id :=
    Table.keys_update (fun _ => rfl)
  have audit : s.db.attempts.filter (fun a => a.deliveryId ∈
        ((Table.update Delivery.id s.db.deliveries loaded.id (loaded.flush current)).filter
          (fun d => owns s.db t d.endpointId)).map Delivery.id) = (partOf t s).attempts := by
    rw [seen, keys]
    rfl
  exact congr (congrArg (fun ds as => { partOf t s with deliveries := ds, attempts := as }) seen)
    audit

theorem part_commitRequeued (rows : List Delivery) :
    partOf t (commitRequeued s rows) = (partOf t s).commitRequeued rows := by
  unfold Api.commitRequeued Part.commitRequeued
  induction rows generalizing s with
  | nil => rfl
  | cons row rest ih =>
    rw [List.foldl_cons, ih, part_commitDelivery]
    rfl

theorem endpoints_commitRequeued (s : Store) (rows : List Delivery) :
    (commitRequeued s rows).db.endpoints = s.db.endpoints := by
  obtain ⟨deliveries, log, committed⟩ := commitRequeued_frame s rows
  rw [committed]

/-- Rows that some id names do not show where its endpoint is not owned. -/
theorem part_commitRequeued_other {rows : List Delivery}
    (notMine : ∀ row ∈ rows, ∀ d ∈ s.db.deliveries, d.id = row.id →
      owns s.db t d.endpointId = false) :
    partOf t (commitRequeued s rows) = partOf t s := by
  have absent : ∀ row ∈ rows, row.id ∉ (partOf t s).deliveries.map Delivery.id := by
    intro row listed named
    obtain ⟨d, seen, same⟩ := List.mem_map.mp named
    obtain ⟨stored, owned⟩ := List.mem_filter.mp seen
    rw [notMine row listed d stored same] at owned
    cases owned
  have kept : rows.foldl (fun ds row =>
      Table.update Delivery.id ds row.id (row.flush (requeued row))) (partOf t s).deliveries =
        (partOf t s).deliveries := by
    induction rows with
    | nil => rfl
    | cons row rest ih =>
      rw [List.foldl_cons, Table.update_of_absent (absent row List.mem_cons_self)]
      exact ih (fun r h => notMine r (List.mem_cons_of_mem _ h))
        (fun r h => absent r (List.mem_cons_of_mem _ h))
  rw [part_commitRequeued]
  exact congrArg (fun ds => { partOf t s with deliveries := ds }) kept

/-- UPDATE of one action or of one diagnosis. -/
def updateAction (s : Store) (id : Uuid) (f : AgentAction → AgentAction) : Store :=
  { s with db := { s.db with actions := Table.update AgentAction.id s.db.actions id f } }

def updateDiagnosis (s : Store) (id : Uuid) (f : Diagnosis → Diagnosis) : Store :=
  { s with db := { s.db with diagnoses := Table.update Diagnosis.id s.db.diagnoses id f } }

theorem part_updateAction {f : AgentAction → AgentAction}
    (keeps : ∀ a, (f a).endpointId = a.endpointId) :
    partOf t (updateAction s id f) =
      { partOf t s with actions := Table.update AgentAction.id (partOf t s).actions id f } :=
  congrArg (fun as => { partOf t s with actions := as })
    (Table.view_update (p := fun a => owns s.db t a.endpointId)
      (fun a => congrArg (owns s.db t) (keeps a)))

theorem part_updateAction_other {f : AgentAction → AgentAction}
    (keeps : ∀ a, (f a).endpointId = a.endpointId)
    (notMine : ∀ a ∈ s.db.actions, a.id = id → owns s.db t a.endpointId = false) :
    partOf t (updateAction s id f) = partOf t s :=
  congrArg (fun as => { partOf t s with actions := as })
    (Table.view_update_outside (p := fun a => owns s.db t a.endpointId)
      (fun a => congrArg (owns s.db t) (keeps a)) notMine)

theorem part_updateDiagnosis {f : Diagnosis → Diagnosis}
    (keeps : ∀ g, (f g).endpointId = g.endpointId) :
    partOf t (updateDiagnosis s id f) =
      { partOf t s with diagnoses := Table.update Diagnosis.id (partOf t s).diagnoses id f } :=
  congrArg (fun gs => { partOf t s with diagnoses := gs })
    (Table.view_update (p := fun g => owns s.db t g.endpointId)
      (fun g => congrArg (owns s.db t) (keeps g)))

theorem part_updateDiagnosis_other {f : Diagnosis → Diagnosis}
    (keeps : ∀ g, (f g).endpointId = g.endpointId)
    (notMine : ∀ g ∈ s.db.diagnoses, g.id = id → owns s.db t g.endpointId = false) :
    partOf t (updateDiagnosis s id f) = partOf t s :=
  congrArg (fun gs => { partOf t s with diagnoses := gs })
    (Table.view_update_outside (p := fun g => owns s.db t g.endpointId)
      (fun g => congrArg (owns s.db t) (keeps g)) notMine)

end Writes

/-! Writes to the endpoints -/

section Endpoints

variable {s : Store} {t t' id : Uuid} {e : Endpoint} {f : Endpoint → Endpoint}

def updateEndpoint (s : Store) (id : Uuid) (f : Endpoint → Endpoint) : Store :=
  { s with db := { s.db with endpoints := Table.update Endpoint.id s.db.endpoints id f } }

theorem owns_updateEndpoint (keeps : ∀ e, (f e).id = e.id ∧ (f e).tenantId = e.tenantId) :
    owns (updateEndpoint s id f).db t = owns s.db t := by
  funext i
  unfold owns updateEndpoint Table.update
  rw [List.any_map]
  congr 1
  funext e
  by_cases here : e.id = id <;> simp [here, keeps]

theorem part_updateEndpoint (keeps : ∀ e, (f e).id = e.id ∧ (f e).tenantId = e.tenantId) :
    partOf t (updateEndpoint s id f) =
      { partOf t s with endpoints := Table.update Endpoint.id (partOf t s).endpoints id f } := by
  have seen : (Table.update Endpoint.id s.db.endpoints id f).filter (fun e => e.tenantId = t) =
      Table.update Endpoint.id (partOf t s).endpoints id f :=
    Table.view_update (fun e => by rw [(keeps e).2])
  unfold partOf
  rw [owns_updateEndpoint keeps]
  exact congrArg (fun es => { partOf t s with endpoints := es }) seen

theorem part_updateEndpoint_other (keeps : ∀ e, (f e).id = e.id ∧ (f e).tenantId = e.tenantId)
    (notMine : owns s.db t id = false) : partOf t (updateEndpoint s id f) = partOf t s := by
  have seen : (Table.update Endpoint.id s.db.endpoints id f).filter (fun e => e.tenantId = t) =
      (partOf t s).endpoints := by
    refine Table.view_update_outside (fun e => by rw [(keeps e).2]) (fun e listed key => ?_)
    rw [Bool.eq_false_iff] at notMine
    exact decide_eq_false (fun mine => notMine (owns_iff.mpr ⟨e, listed, key, mine⟩))
  unfold partOf
  rw [owns_updateEndpoint keeps]
  exact congrArg (fun es => { partOf t s with endpoints := es }) seen

/-- Nothing but an endpoint row names the id. -/
structure Silent (s : Store) (id : Uuid) : Prop where
  deliveries : ∀ d ∈ s.db.deliveries, d.endpointId ≠ id
  diagnoses : ∀ g ∈ s.db.diagnoses, g.endpointId ≠ id
  actions : ∀ a ∈ s.db.actions, a.endpointId ≠ id
  ordered : s.ordered id = []
  breaker : s.breakers id = {}
  entries : ∀ n, ∀ f ∈ (s.queues.streams n).entries, f.endpointId ≠ id
  retries : ∀ e ∈ s.queues.retries.entries, e.1.endpointId ≠ id

theorem Unused.silent (unused : Unused s id) (tidy : Tidy s.db) : Silent s id where
  deliveries := by
    rintro d listed rfl
    obtain ⟨e, row, _, _, key, _⟩ := tidy.deliveries d listed
    exact unused.endpoint (key ▸ List.mem_map_of_mem row)
  diagnoses := by
    rintro g listed rfl
    obtain ⟨e, row, key⟩ := tidy.diagnoses g listed
    exact unused.endpoint (key ▸ List.mem_map_of_mem row)
  actions := by
    rintro a listed rfl
    obtain ⟨g, row, _, same⟩ := tidy.actions a listed
    obtain ⟨e, row', key⟩ := tidy.diagnoses g row
    exact unused.endpoint (same ▸ key ▸ List.mem_map_of_mem row')
  ordered := unused.ordered
  breaker := unused.breaker
  entries := unused.entries
  retries := unused.retries

/-- Tests that differ on a silent id only show the same. -/
theorem view_congr {own own' : Uuid → Bool} (silent : Silent s id)
    (same : ∀ i, i ≠ id → own i = own' i) : view own t s = view own' t s := by
  have deliveries : s.db.deliveries.filter (fun d => own d.endpointId) =
      s.db.deliveries.filter (fun d => own' d.endpointId) :=
    List.filter_congr (fun d h => same _ (silent.deliveries d h))
  have diagnoses : s.db.diagnoses.filter (fun g => own g.endpointId) =
      s.db.diagnoses.filter (fun g => own' g.endpointId) :=
    List.filter_congr (fun g h => same _ (silent.diagnoses g h))
  have actions : s.db.actions.filter (fun a => own a.endpointId) =
      s.db.actions.filter (fun a => own' a.endpointId) :=
    List.filter_congr (fun a h => same _ (silent.actions a h))
  have entries : (fun n => (s.queues.streams n).entries.filter (fun f => own f.endpointId)) =
      fun n => (s.queues.streams n).entries.filter (fun f => own' f.endpointId) :=
    funext (fun n => List.filter_congr (fun f h => same _ (silent.entries n f h)))
  have retries : s.queues.retries.keep (fun e => own e.1.endpointId) =
      s.queues.retries.keep (fun e => own' e.1.endpointId) :=
    ZSet.ext (List.filter_congr (fun e h => same _ (silent.retries e h)))
  have ordered : (fun i => if own i then s.ordered i else []) =
      fun i => if own' i then s.ordered i else [] := by
    funext i
    by_cases here : i = id
    · simp [here, silent.ordered]
    · rw [same i here]
  have breakers : (fun i => if own i then s.breakers i else {}) =
      fun i => if own' i then s.breakers i else {} := by
    funext i
    by_cases here : i = id
    · simp [here, silent.breaker]
    · rw [same i here]
  unfold view
  rw [deliveries, diagnoses, actions, entries, retries, ordered, breakers]

def addEndpoint (s : Store) (e : Endpoint) : Store :=
  { s with db := { s.db with endpoints := s.db.endpoints ++ [e] } }

theorem owns_addEndpoint (i : Uuid) :
    owns (addEndpoint s e).db t i = (owns s.db t i || decide (e.id = i ∧ e.tenantId = t)) := by
  simp [owns, addEndpoint, List.any_append]

theorem part_addEndpoint (silent : Silent s e.id) :
    partOf t (addEndpoint s e) =
      { partOf t s with
        endpoints := (partOf t s).endpoints ++ if e.tenantId = t then [e] else [] } := by
  have seen : (s.db.endpoints ++ [e]).filter (fun e => e.tenantId = t) =
      (partOf t s).endpoints ++ if e.tenantId = t then [e] else [] := by
    rw [List.filter_append]
    by_cases mine : e.tenantId = t <;> simp [partOf, view, mine]
  have apart : view (owns (addEndpoint s e).db t) t s = partOf t s := by
    refine view_congr silent (fun i ne => ?_)
    rw [owns_addEndpoint]
    simp [Ne.symm ne]
  rw [← apart]
  exact congrArg (fun es => { view (owns (addEndpoint s e).db t) t s with endpoints := es })
    (seen.trans (by rw [← apart]))

/-- The part without an endpoint. -/
def Part.without (p : Part) (id : Uuid) : Part where
  endpoints := p.endpoints.filter (fun e => e.id ≠ id)
  events := p.events
  deliveries := p.deliveries.filter (fun d => d.endpointId ≠ id)
  attempts := p.attempts.filter (fun a =>
    a.deliveryId ∈ (p.deliveries.filter (fun d => d.endpointId ≠ id)).map Delivery.id)
  diagnoses := p.diagnoses.filter (fun g => g.endpointId ≠ id)
  actions := p.actions.filter (fun a => a.endpointId ≠ id)
  entries n := (p.entries n).filter (fun f => f.endpointId ≠ id)
  ordered i := if i = id then [] else p.ordered i
  retries := p.retries.keep (fun e => e.1.endpointId ≠ id)
  breakers i := if i = id then {} else p.breakers i

def deleteRow (s : Store) (id : Uuid) : Store := { s with db := deleted s.db id }

theorem owns_deleteRow (i : Uuid) :
    owns (deleteRow s id).db t i = (owns s.db t i && decide (i ≠ id)) := by
  rw [Bool.eq_iff_iff, Bool.and_eq_true, owns_iff, owns_iff, decide_eq_true_eq]
  simp only [deleteRow, deleted, List.mem_filter, decide_eq_true_eq]
  constructor
  · rintro ⟨e, ⟨listed, other⟩, rfl, mine⟩
    exact ⟨⟨e, listed, rfl, mine⟩, other⟩
  · rintro ⟨⟨e, listed, rfl, mine⟩, other⟩
    exact ⟨e, ⟨listed, other⟩, rfl, mine⟩

/-- The cascade takes the actions of the endpoint, also those it reaches by their diagnosis. -/
theorem actions_deleted {db : Db} (tidy : Tidy db) (id : Uuid) :
    (deleted db id).actions = db.actions.filter (fun a => a.endpointId ≠ id) := by
  refine List.filter_congr
    (fun a listed => decide_eq_decide.mpr ⟨And.left, fun other => ⟨other, ?_⟩⟩)
  intro gone
  obtain ⟨g, cascaded, key⟩ := List.mem_map.mp gone
  obtain ⟨row, endpoint⟩ := List.mem_filter.mp cascaded
  obtain ⟨g', row', key', same⟩ := tidy.actions a listed
  have one : g = g' := List.inj_on_of_nodup_map tidy.diagnosisKeys row row' (key.trans key'.symm)
  exact other (same.symm.trans (one ▸ of_decide_eq_true endpoint))

/-- It takes the attempts of no delivery that stays. -/
theorem attempts_deleted {db : Db} (tidy : Tidy db) (id : Uuid) (test : Delivery → Bool)
    (stays : ∀ d, test d = true → d.endpointId ≠ id) :
    (deleted db id).attempts.filter
        (fun a => a.deliveryId ∈ (db.deliveries.filter test).map Delivery.id) =
      db.attempts.filter
        (fun a => a.deliveryId ∈ (db.deliveries.filter test).map Delivery.id) := by
  refine Table.filter_view (fun a _ inside => decide_eq_true (fun gone => ?_))
  obtain ⟨d, kept, key⟩ := List.mem_map.mp (of_decide_eq_true inside)
  obtain ⟨d', cascaded, key'⟩ := List.mem_map.mp gone
  obtain ⟨row, passes⟩ := List.mem_filter.mp kept
  obtain ⟨row', endpoint⟩ := List.mem_filter.mp cascaded
  have one : d = d' := List.inj_on_of_nodup_map tidy.deliveryKeys row row' (key.trans key'.symm)
  exact stays d passes (one ▸ of_decide_eq_true endpoint)

theorem part_deleteRow (tidy : Tidy s.db) :
    partOf t (deleteRow s id) = (partOf t s).without id := by
  have own (i : Uuid) : owns (deleteRow s id).db t i = (owns s.db t i && decide (i ≠ id)) :=
    owns_deleteRow i
  have twice {R : Type} (rows : List R) (p q : R → Bool) :
      (rows.filter q).filter (fun r => p r && q r) = (rows.filter p).filter q := by
    rw [List.filter_filter, List.filter_filter]
    exact List.filter_congr (fun r _ => by cases p r <;> cases q r <;> rfl)
  have once {R : Type} (rows : List R) (p q : R → Bool) :
      rows.filter (fun r => p r && q r) = (rows.filter p).filter q := by
    rw [List.filter_filter]
    exact List.filter_congr (fun r _ => Bool.and_comm _ _)
  have deliveries : (partOf t (deleteRow s id)).deliveries =
      (partOf t s).deliveries.filter (fun d => d.endpointId ≠ id) := by
    simp only [partOf, view, own]
    exact twice _ _ _
  refine Part.ext ?_ rfl deliveries ?_ ?_ ?_ ?_ ?_ ?_ ?_
  · exact List.filter_comm _ _ _
  · -- attempts
    have split := once s.db.deliveries (fun d => owns s.db t d.endpointId)
      (fun d => decide (d.endpointId ≠ id))
    have audit := attempts_deleted tidy id
      (fun d => owns s.db t d.endpointId && decide (d.endpointId ≠ id))
      (fun d passes => of_decide_eq_true (Bool.and_eq_true_iff.mp passes).2)
    rw [split] at audit
    change (deleted s.db id).attempts.filter
      (fun a => a.deliveryId ∈ (partOf t (deleteRow s id)).deliveries.map Delivery.id) = _
    rw [deliveries]
    refine audit.trans (Eq.symm (Table.filter_view (fun a _ inside => ?_)))
    obtain ⟨d, kept, key⟩ := List.mem_map.mp (of_decide_eq_true inside)
    exact decide_eq_true (key ▸ List.mem_map_of_mem (List.mem_of_mem_filter kept))
  · simp only [partOf, view, own]
    exact twice _ _ _
  · -- actions
    have rows : (deleteRow s id).db.actions = s.db.actions.filter (fun a => a.endpointId ≠ id) :=
      actions_deleted tidy id
    simp only [partOf, view, own, rows]
    exact twice _ _ _
  · funext n
    simp only [partOf, view, own]
    exact once _ _ _
  · funext i
    simp only [partOf, view, own, Part.without]
    by_cases here : i = id <;> simp [here, deleteRow]
  · simp only [partOf, view, own]
    exact ZSet.ext (once _ _ _)
  · funext i
    simp only [partOf, view, own, Part.without]
    by_cases here : i = id <;> simp [here, deleteRow]

theorem part_deleteRow_other (tidy : Tidy s.db) (notMine : owns s.db t id = false) :
    partOf t (deleteRow s id) = partOf t s := by
  have apart {i : Uuid} (mine : owns s.db t i = true) : i ≠ id := fun same => by
    rw [same, notMine] at mine
    cases mine
  have whole {R : Type} (rows : List R) (name : R → Uuid) :
      (rows.filter (fun r => owns s.db t (name r))).filter (fun r => name r ≠ id) =
        rows.filter (fun r => owns s.db t (name r)) :=
    List.filter_eq_self.mpr (fun r h => decide_eq_true (apart (List.mem_filter.mp h).2))
  have deliveries : (partOf t s).deliveries.filter (fun d => d.endpointId ≠ id) =
      (partOf t s).deliveries := whole s.db.deliveries Delivery.endpointId
  rw [part_deleteRow tidy]
  refine Part.ext ?_ rfl deliveries ?_ (whole _ Diagnosis.endpointId)
    (whole _ AgentAction.endpointId)
    (funext fun n => whole _ Fields.endpointId) ?_ ?_ ?_
  · refine List.filter_eq_self.mpr (fun e h => decide_eq_true (apart (owns_iff.mpr ?_)))
    obtain ⟨listed, mine⟩ := List.mem_filter.mp h
    exact ⟨e, listed, rfl, of_decide_eq_true mine⟩
  · change (partOf t s).attempts.filter (fun a => a.deliveryId ∈
      ((partOf t s).deliveries.filter (fun d => d.endpointId ≠ id)).map Delivery.id) = _
    rw [deliveries]
    exact List.filter_eq_self.mpr (fun a h => (List.mem_filter.mp h).2)
  · funext i
    by_cases here : i = id
    · simp [Part.without, partOf, view, here, notMine]
    · exact if_neg here
  · exact ZSet.ext (whole s.queues.retries.entries (fun e : Member × ℚ => e.1.endpointId))
  · funext i
    by_cases here : i = id
    · simp [Part.without, partOf, view, here, notMine]
    · exact if_neg here

end Endpoints

/-! The insert of an event -/

section Inserts

variable {s : Store} {t tenantId : Uuid} {event : Event} {rows : List Delivery}

/-- An event and its deliveries are committed; `issued` are the ids they were given. -/
def addEvent (s : Store) (issued : List Uuid) (event : Event) (rows : List Delivery) : Store :=
  { s with
    db := { s.db with events := s.db.events ++ [event], deliveries := s.db.deliveries ++ rows }
    issued := issued ++ s.issued }

theorem commitEvent_eq (s : Store) (issued : List Uuid) (event : Event) (rows : List Delivery) :
    Ingest.commitEvent { s with
        db := Ingest.reserve s.db event.tenantId event.idempotencyKey
        issued := issued ++ s.issued } event rows = addEvent s issued event rows := by
  cases key : event.idempotencyKey with
  | none => simp [Ingest.commitEvent, Ingest.reserve, Ingest.unreserve, key, addEvent]
  | some k => simp [Ingest.commitEvent, Ingest.reserve, Ingest.unreserve, key, addEvent]

theorem part_addEvent (issued : List Uuid) (mine : event.tenantId = t)
    (owned : ∀ d ∈ rows, owns s.db t d.endpointId = true)
    (unattempted : ∀ a ∈ s.db.attempts, a.deliveryId ∉ rows.map Delivery.id) :
    partOf t (addEvent s issued event rows) =
      { partOf t s with
        events := (partOf t s).events ++ [event]
        deliveries := (partOf t s).deliveries ++ rows } := by
  have deliveries : (partOf t (addEvent s issued event rows)).deliveries =
      (partOf t s).deliveries ++ rows := by
    change (s.db.deliveries ++ rows).filter (fun d => owns s.db t d.endpointId) = _
    rw [List.filter_append, List.filter_eq_self.mpr owned]
    rfl
  refine Part.ext rfl ?_ deliveries ?_ rfl rfl rfl rfl rfl rfl
  · change (s.db.events ++ [event]).filter (fun v => v.tenantId = t) = _
    rw [List.filter_append]
    simp [partOf, view, mine]
  · change s.db.attempts.filter (fun a => a.deliveryId ∈
      (partOf t (addEvent s issued event rows)).deliveries.map Delivery.id) = _
    rw [deliveries]
    refine List.filter_congr (fun a listed => decide_eq_decide.mpr ?_)
    rw [List.map_append, List.mem_append]
    exact or_iff_left (unattempted a listed)

theorem part_addEvent_other (issued : List Uuid) (notMine : event.tenantId ≠ t)
    (unowned : ∀ d ∈ rows, owns s.db t d.endpointId = false) :
    partOf t (addEvent s issued event rows) = partOf t s := by
  have deliveries : (partOf t (addEvent s issued event rows)).deliveries =
      (partOf t s).deliveries := by
    change (s.db.deliveries ++ rows).filter (fun d => owns s.db t d.endpointId) = _
    have none : rows.filter (fun d => owns s.db t d.endpointId) = [] :=
      List.filter_eq_nil_iff.mpr (fun d h => by simp [unowned d h])
    rw [List.filter_append, none, List.append_nil]
    rfl
  refine Part.ext rfl ?_ deliveries ?_ rfl rfl rfl rfl rfl rfl
  · change (s.db.events ++ [event]).filter (fun v => v.tenantId = t) = _
    rw [List.filter_append]
    simp [partOf, view, notMine]
  · change s.db.attempts.filter (fun a => a.deliveryId ∈
      (partOf t (addEvent s issued event rows)).deliveries.map Delivery.id) = _
    rw [deliveries]
    rfl

end Inserts

end Relay.Api
