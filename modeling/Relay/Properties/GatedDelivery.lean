import Relay.Delivery.Attempt
import Relay.Pipeline.History

/-!
# A gated delivery costs nothing

A call of `deliver_with_gates` with no other process in between that is turned
away: the lock is held, another delivery is at the head, the breaker denies, or
the rate limit or the in-flight cap is hit. Up to there the gates write tokens,
slots and the probe's time. The only row that may change is that of an endpoint
whose breaker has been open for 72 h.
-/

namespace Relay

open CircuitBreaker Enqueue RetryQueue Worker Transition

namespace Worker

inductive Gate where
  | lockHeld
  | notHead
  | denied
  | rateLimited
  | maxInflight
  deriving DecidableEq

def Gate.delay : Gate → ℚ
  | .lockHeld | .notHead => orderedWaitS
  | .denied => breakerRecheckDelayS
  | .rateLimited => rateLimitRetryDelayS
  | .maxInflight => concurrencyRetryDelayS

/-- The gate whose await leads from a location into `defer_delivery`. -/
def Pc.turnedBy : Pc → Pc → Option Gate
  | .acquireLock _, .deferWaiting .. => some .lockHeld
  | .releaseNotHead _, .deferWaiting .. => some .notHead
  | .getState _, .deferGated .. | .disable _, .deferGated .. => some .denied
  | .takeToken .., .deferGated .. => some .rateLimited
  | .acquireSlot .., .deferGated .. => some .maxInflight
  | _, _ => none

end Worker

/-- When an await returns, and what it returns. -/
structure Answer where
  clock : ℚ := 0
  choice : Choice := {}

/-- A call under way; `turned` is the gate that has turned it away, with the
time that `schedule_retry` reads then. -/
structure Gating where
  store : Store
  pc : Pc
  turned : Option (Gate × ℚ)

namespace Gating

def start (now : ℚ) (s : Store) : Gating := ⟨s, .loadDelivery now, none⟩

/-- No call raises. -/
def step (env : Env) (id : Uuid) (a : Answer) (x : Gating) : Option Gating :=
  (x.pc.step env a.clock a.choice 0 0 id x.store).map (fun y =>
    { store := y.1
      pc := y.2
      turned :=
        match x.pc.turnedBy y.2 with
        | some gate => some (gate, a.clock)
        | none => x.turned })

/-- The recorded outcomes of a breaker, and since when it is open. -/
structure SameOutcomes (b b' : Breaker) : Prop where
  consecutive : b'.consecutive = b.consecutive
  attempts : b'.attempts = b.attempts
  failures : b'.failures = b.failures
  openedAt : b'.openedAt = b.openedAt

theorem SameOutcomes.refl (b : Breaker) : SameOutcomes b b := ⟨rfl, rfl, rfl, rfl⟩

/-- What no gate touches. -/
structure Spared (s s' : Store) : Prop where
  deliveries : s'.db.deliveries = s.db.deliveries
  attempts : s'.db.attempts = s.db.attempts
  breakers : ∀ endpointId, SameOutcomes (s.breakers endpointId) (s'.breakers endpointId)
  ordered : s'.ordered = s.ordered
  streams : s'.queues.streams = s.queues.streams
  published : s'.published = s.published
  log : s'.log = s.log

/-- At most the endpoint is disabled, after the test of `should_auto_disable`. -/
def Rows (now : ℚ) (e : Endpoint) (gate : Gate) (s s' : Store) : Prop :=
  s'.db = s.db ∨ (gate = .denied ∧ shouldAutoDisable (s.breakers e.id) now = true ∧
    s'.db = s.db.setEndpointStatus e.id .disabled)

/-- Every member packs the ids of its delivery's row. -/
def MembersNamed (env : Env) (s : Store) : Prop :=
  ∀ m, s.queues.retries.Mem m → ∀ d, s.db.delivery m.deliveryId = some d →
    m = encodeMember env.settings.streamShards d.id d.eventId d.endpointId

/-- The entries of the retry set that would bring a delivery back. -/
def scheduled (s : Store) (id : Uuid) : List (Member × ℚ) :=
  s.queues.retries.entries.filter (fun m => m.1.deliveryId = id)

/-- From the lock to the answer of `should_auto_disable`. -/
def atEntry : Pc → Option Locals
  | .acquireLock v | .peekHead v | .releaseNotHead v | .allowRequest v | .getState v
  | .disable v => some v
  | _ => none

/-- From the breaker's permission to the slot. -/
def atLimits : Pc → Option Locals
  | .loadTenant v | .takeToken v _ | .loadTenantAgain v | .acquireSlot v _ => some v
  | _ => none

/-- Every gate is passed, or there was nothing to deliver. -/
def beyond : Pc → Bool
  | .reloadDelivery .. | .reloadEndpoint .. | .loadEvent .. | .commitDelivering .. | .send ..
  | .receive .. | .commitOutcome .. | .scheduleRetry .. | .refresh .. | .recordOutcome ..
  | .publishTrigger .. | .popHead .. | .releaseSlot .. | .releaseLock .. | .close _ | .ack
  | .finished => true
  | _ => false

/-- The way out after a deferral. -/
def leaving : Pc → Bool
  | .releaseLock .. | .close _ => true
  | _ => false

/-- The local variables of the call for the row `d` of the endpoint `e`. -/
structure Of (now : ℚ) (d : Delivery) (e : Endpoint) (v : Locals) : Prop where
  now : v.now = now
  delivery : v.delivery = d
  endpoint : v.endpoint = e

/-- How far a call that began on `s` has come. -/
inductive Phase (env : Env) (now : ℚ) (d : Delivery) (e : Endpoint) (s : Store) : Gating → Prop
  | loading : Phase env now d e s (start now s)
  | loaded : Phase env now d e s ⟨s, .loadEndpoint now d, none⟩
  | early {t : Store} {pc : Pc} {v : Locals} (at_gate : atEntry pc = some v) (own : Of now d e v)
      (spared : Spared s t) (db : t.db = s.db) (queues : t.queues = s.queues)
      (breakers : t.breakers = s.breakers)
      (test : ∀ v, pc = .disable v → shouldAutoDisable (s.breakers e.id) now = true) :
      Phase env now d e s ⟨t, pc, none⟩
  | late {t : Store} {pc : Pc} {v : Locals} (at_gate : atLimits pc = some v) (own : Of now d e v)
      (spared : Spared s t) (db : t.db = s.db) (queues : t.queues = s.queues) :
      Phase env now d e s ⟨t, pc, none⟩
  | turned {t : Store} {pc : Pc} {v : Locals} {g : Gate} {time : ℚ}
      (defers : pc = .deferWaiting v (time + g.delay) ∨ pc = .deferGated v (time + g.delay))
      (own : Of now d e v) (spared : Spared s t) (rows : Rows now e g s t)
      (queues : t.queues = s.queues) : Phase env now d e s ⟨t, pc, some (g, time)⟩
  | deferred {t : Store} {pc : Pc} {gate : Gate} {time : ℚ} (exits : leaving pc = true)
      (spared : Spared s t) (rows : Rows now e gate s t)
      (retries : t.queues.retries = s.queues.retries.zadd
        (encodeMember env.settings.streamShards d.id d.eventId e.id) (time + gate.delay)) :
      Phase env now d e s ⟨t, pc, some (gate, time)⟩
  | passed {t : Store} {pc : Pc} (exits : beyond pc = true) : Phase env now d e s ⟨t, pc, none⟩
  | ended {x : Gating} (left : x.pc = .ack ∨ x.pc = .finished) : Phase env now d e s x

variable {env : Env} {id : Uuid} {now : ℚ} {d : Delivery} {e : Endpoint} {s t t' : Store}
  {pc pc' : Pc} {v : Locals} {gate : Gate} {time clock : ℚ} {c : Choice} {x y : Gating}

theorem Spared.refl (s : Store) : Spared s s :=
  ⟨rfl, rfl, fun _ => .refl _, rfl, rfl, rfl, rfl⟩

theorem Spared.trans {s₁ s₂ s₃ : Store} (first : Spared s₁ s₂)
    (second : Spared s₂ s₃) : Spared s₁ s₃ where
  deliveries := second.deliveries.trans first.deliveries
  attempts := second.attempts.trans first.attempts
  breakers := fun endpointId =>
    { consecutive := (second.breakers endpointId).consecutive.trans
        (first.breakers endpointId).consecutive
      attempts := (second.breakers endpointId).attempts.trans (first.breakers endpointId).attempts
      failures := (second.breakers endpointId).failures.trans (first.breakers endpointId).failures
      openedAt := (second.breakers endpointId).openedAt.trans
        (first.breakers endpointId).openedAt }
  ordered := second.ordered.trans first.ordered
  streams := second.streams.trans first.streams
  published := second.published.trans first.published
  log := second.log.trans first.log

theorem sameOutcomes_allowRequestLua (b : Breaker) (now : ℚ) :
    SameOutcomes b (allowRequestLua b now).1 := by
  unfold allowRequestLua
  split
  · exact .refl b
  · split
    · exact ⟨rfl, rfl, rfl, rfl⟩
    · exact .refl b
  · exact .refl b

/-- A denial changes nothing at all. -/
theorem allowRequestLua_deny {b : Breaker} (denied : (allowRequestLua b now).2.1 = .deny) :
    (allowRequestLua b now).1 = b := by
  unfold allowRequestLua at denied ⊢
  split
  · rfl
  · rename_i opened
    simp only [opened] at denied
    split
    · rename_i due
      rw [if_pos due] at denied
      cases denied
    · rfl
  · rfl

theorem allowRequest_deny {endpointId : Uuid} {state : BreakerState}
    (answer : s.allowRequest endpointId now = (t, .deny, state)) : t = s := by
  have denied : (allowRequestLua (s.breakers endpointId) now).1 = s.breakers endpointId :=
    allowRequestLua_deny (congrArg (fun a => a.2.1) answer)
  have written : (s.allowRequest endpointId now).1 = t := congrArg Prod.fst answer
  rw [← written, Store.allowRequest]
  simp only [denied, Function.update_eq_self]

theorem spared_allowRequest (s : Store) (endpointId : Uuid) (now : ℚ) :
    Spared s (s.allowRequest endpointId now).1 where
  deliveries := rfl
  attempts := rfl
  breakers := by
    intro other
    by_cases same : other = endpointId
    · subst same
      simp only [Store.allowRequest, Function.update_self]
      exact sameOutcomes_allowRequestLua _ _
    · simp only [Store.allowRequest, Function.update_of_ne same]
      exact .refl _
  ordered := rfl
  streams := rfl
  published := rfl
  log := rfl

theorem spared_releaseLock (s : Store) (endpointId token : Uuid) (clock : ℚ) :
    Spared s (s.releaseLock endpointId token clock) := by
  unfold Store.releaseLock
  split
  · exact ⟨rfl, rfl, fun _ => .refl _, rfl, rfl, rfl, rfl⟩
  · exact .refl s

/-- Behind the gates no location leads back to one. -/
theorem step_beyond (next : pc.step env clock c 0 0 id t = some (t', pc'))
    (exits : beyond pc = true) : beyond pc' = true ∧ pc.turnedBy pc' = none := by
  have unlocked : ∀ (v : Locals) (acks : Bool), beyond (Pc.unlock v acks) = true := by
    intro v acks
    unfold Pc.unlock
    split <;> rfl
  have after : ∀ (v : Locals) (slot : Uuid), beyond (Pc.afterOutcome v slot) = true := by
    intro v slot
    unfold Pc.afterOutcome
    split <;> rfl
  cases pc with
  | loadDelivery | loadEndpoint | acquireLock | peekHead | releaseNotHead | deferWaiting
  | allowRequest | getState | disable | loadTenant | takeToken | loadTenantAgain | acquireSlot
  | deferGated => cases exits
  | recordOutcome v slot time =>
    simp only [Pc.step] at next
    split at next
    · cases next
      exact ⟨rfl, rfl⟩
    · cases next
      exact ⟨after v slot, rfl⟩
  | publishTrigger v slot event =>
    cases next
    exact ⟨after v slot, rfl⟩
  | releaseSlot v slot acks =>
    cases next
    exact ⟨unlocked v acks, rfl⟩
  | close acks =>
    cases next
    cases acks <;> exact ⟨rfl, rfl⟩
  | _ =>
    simp only [Pc.step] at next
    repeat' split at next
    all_goals
      cases next <;> exact ⟨rfl, rfl⟩

/-- Where the call is after an await. -/
def after (pc : Pc) (clock : ℚ) (turned : Option (Gate × ℚ)) (y : Store × Pc) : Gating where
  store := y.1
  pc := y.2
  turned :=
    match pc.turnedBy y.2 with
    | some gate => some (gate, clock)
    | none => turned

theorem Phase.loading_step (row : s.db.delivery id = some d)
    (next : (Pc.loadDelivery now).step env clock c 0 0 id s = some (t', pc')) :
    Phase env now d e s (after (.loadDelivery now) clock none (t', pc')) := by
  simp only [Pc.step, row] at next
  split at next <;> cases next
  · exact .passed rfl
  · exact .loaded

theorem Phase.loaded_step (endpoint : s.db.endpoint d.endpointId = some e)
    (next : (Pc.loadEndpoint now d).step env clock c 0 0 id s = some (t', pc')) :
    Phase env now d e s (after (.loadEndpoint now d) clock none (t', pc')) := by
  simp only [Pc.step, endpoint] at next
  split at next
  · cases next
    exact .passed rfl
  · split at next <;> cases next
    · exact .early rfl ⟨rfl, rfl, rfl⟩ (.refl s) rfl rfl rfl (by rintro _ ⟨⟩)
    · exact .early rfl ⟨rfl, rfl, rfl⟩ (.refl s) rfl rfl rfl (by rintro _ ⟨⟩)

theorem Phase.early_step (at_gate : atEntry pc = some v) (own : Of now d e v) (spared : Spared s t)
    (db : t.db = s.db) (queues : t.queues = s.queues) (breakers : t.breakers = s.breakers)
    (test : ∀ v, pc = .disable v → shouldAutoDisable (s.breakers e.id) now = true)
    (next : pc.step env clock c 0 0 id t = some (t', pc')) :
    Phase env now d e s (after pc clock none (t', pc')) := by
  cases pc with
  | acquireLock v' =>
    cases at_gate
    simp only [Pc.step] at next
    split at next
    · cases next
      exact .turned (g := .lockHeld) (Or.inl rfl) own spared (Or.inl db) queues
    · rename_i acquired
      cases next
      unfold Store.acquireLock at acquired
      split at acquired <;> cases acquired
      exact .early rfl ⟨own.now, own.delivery, own.endpoint⟩
        (spared.trans ⟨rfl, rfl, fun _ => .refl _, rfl, rfl, rfl, rfl⟩) db queues breakers
        (by rintro _ ⟨⟩)
  | peekHead v' =>
    cases at_gate
    simp only [Pc.step] at next
    repeat' split at next
    all_goals
      cases next
      exact .early rfl own spared db queues breakers (by rintro _ ⟨⟩)
  | releaseNotHead v' =>
    cases at_gate
    simp only [Pc.step] at next
    split at next
    · rename_i token held
      cases next
      have released := spared_releaseLock t v.endpoint.id token clock
      have same : (t.releaseLock v.endpoint.id token clock).db = t.db ∧
          (t.releaseLock v.endpoint.id token clock).queues = t.queues := by
        unfold Store.releaseLock
        split <;> exact ⟨rfl, rfl⟩
      exact .turned (g := .notHead) (Or.inl rfl) own (spared.trans released)
        (Or.inl (same.1.trans db)) (same.2.trans queues)
    · cases next
      exact .turned (g := .notHead) (Or.inl rfl) own spared (Or.inl db) queues
  | allowRequest v' =>
    cases at_gate
    have asked := spared_allowRequest t v.endpoint.id v.now
    simp only [Pc.step] at next
    split at next
    · rename_i answer
      cases next
      obtain rfl := allowRequest_deny answer
      exact .early rfl ⟨own.now, own.delivery, own.endpoint⟩ spared db queues breakers
        (by rintro _ ⟨⟩)
    · rename_i s' decision _ _ answer
      have written : (t.allowRequest v.endpoint.id v.now).1 = s' := congrArg Prod.fst answer
      subst written
      cases next
      exact .late rfl ⟨own.now, own.delivery, own.endpoint⟩ (spared.trans asked) db queues
  | getState v' =>
    cases at_gate
    simp only [Pc.step] at next
    split at next
    · rename_i open72
      cases next
      refine .early rfl own spared db queues breakers (fun _ _ => ?_)
      rw [breakers, own.endpoint, own.now] at open72
      exact open72
    · cases next
      exact .turned (g := .denied) (Or.inr rfl) own spared (Or.inl db) queues
  | disable v' =>
    cases at_gate
    cases next
    have rows : Rows now e .denied s (t.setEndpointStatus v.endpoint.id .disabled) := by
      refine Or.inr ⟨rfl, test v rfl, ?_⟩
      simp only [Store.setEndpointStatus, db, own.endpoint]
    exact .turned (g := .denied) (Or.inr rfl) own
      (spared.trans ⟨rfl, rfl, fun _ => .refl _, rfl, rfl, rfl, rfl⟩) rows queues
  | _ => cases at_gate

theorem Phase.late_step (at_gate : atLimits pc = some v) (own : Of now d e v)
    (spared : Spared s t) (db : t.db = s.db) (queues : t.queues = s.queues)
    (next : pc.step env clock c 0 0 id t = some (t', pc')) :
    Phase env now d e s (after pc clock none (t', pc')) := by
  cases pc with
  | loadTenant v' | loadTenantAgain v' =>
    cases at_gate
    simp only [Pc.step] at next
    split at next <;> cases next
    exact .late rfl own spared db queues
  | takeToken v' rate =>
    cases at_gate
    simp only [Pc.step] at next
    split at next
    all_goals
      rename_i s' answer
      have written : (t.takeToken v.endpoint.tenantId rate clock v.now).1 = s' :=
        congrArg Prod.fst answer
      subst written
      cases next
      have taken : Spared s (t.takeToken v.endpoint.tenantId rate clock v.now).1 :=
        spared.trans ⟨rfl, rfl, fun _ => .refl _, rfl, rfl, rfl, rfl⟩
    · exact .late rfl own taken db queues
    · exact .turned (g := .rateLimited) (Or.inr rfl) own taken (Or.inl db) queues
  | acquireSlot v' cap =>
    cases at_gate
    simp only [Pc.step] at next
    split at next
    all_goals
      rename_i s' answer
      have written : (t.acquireSlot v.endpoint.tenantId cap clock v.now c.token).1 = s' :=
        congrArg Prod.fst answer
      subst written
      cases next
      have asked : Spared s (t.acquireSlot v.endpoint.tenantId cap clock v.now c.token).1 :=
        spared.trans ⟨rfl, rfl, fun _ => .refl _, rfl, rfl, rfl, rfl⟩
    · exact .passed rfl
    · exact .turned (g := .maxInflight) (Or.inr rfl) own asked (Or.inl db) queues
  | _ => cases at_gate

theorem Phase.turned_step
    (defers : pc = .deferWaiting v (time + gate.delay) ∨ pc = .deferGated v (time + gate.delay))
    (own : Of now d e v) (spared : Spared s t) (rows : Rows now e gate s t)
    (queues : t.queues = s.queues) (next : pc.step env clock c 0 0 id t = some (t', pc')) :
    Phase env now d e s (after pc clock (some (gate, time)) (t', pc')) := by
  have member : v.member env =
      encodeMember env.settings.streamShards d.id d.eventId e.id := by
    unfold Locals.member
    rw [own.delivery, own.endpoint]
  have retries : (t.queues.scheduleRetry (v.member env) (time + gate.delay)).retries =
      s.queues.retries.zadd (encodeMember env.settings.streamShards d.id d.eventId e.id)
        (time + gate.delay) := by
    rw [member, queues]
    rfl
  have kept : Spared s (t.scheduleRetry (v.member env) (time + gate.delay)) :=
    spared.trans ⟨rfl, rfl, fun _ => .refl _, rfl, rfl, rfl, rfl⟩
  rcases defers with rfl | rfl
  · cases next
    exact .deferred rfl kept rows retries
  · cases next
    refine .deferred ?_ kept rows retries
    unfold Pc.unlock
    split <;> rfl

theorem Phase.deferred_step (exits : leaving pc = true) (spared : Spared s t)
    (rows : Rows now e gate s t)
    (retries : t.queues.retries = s.queues.retries.zadd
      (encodeMember env.settings.streamShards d.id d.eventId e.id) (time + gate.delay))
    (next : pc.step env clock c 0 0 id t = some (t', pc')) :
    Phase env now d e s (after pc clock (some (gate, time)) (t', pc')) := by
  cases pc with
  | releaseLock v token acks =>
    cases next
    have released := spared_releaseLock t v.endpoint.id token clock
    have same : (t.releaseLock v.endpoint.id token clock).db = t.db ∧
        (t.releaseLock v.endpoint.id token clock).queues = t.queues := by
      unfold Store.releaseLock
      split <;> exact ⟨rfl, rfl⟩
    refine .deferred rfl (spared.trans released) ?_ ?_
    · unfold Rows
      rw [same.1]
      exact rows
    · rw [same.2]
      exact retries
  | close acks =>
    cases next
    cases acks
    · exact .ended (Or.inr rfl)
    · exact .ended (Or.inl rfl)
  | _ => cases exits

theorem Phase.step (row : s.db.delivery id = some d)
    (endpoint : s.db.endpoint d.endpointId = some e) {a : Answer}
    (phase : Phase env now d e s x) (next : step env id a x = some y) :
    Phase env now d e s y := by
  obtain ⟨⟨t', pc'⟩, stepped, rfl⟩ := Option.map_eq_some_iff.mp next
  cases phase with
  | loading => exact Phase.loading_step row stepped
  | loaded => exact Phase.loaded_step endpoint stepped
  | early at_gate own spared db queues breakers test =>
    exact Phase.early_step at_gate own spared db queues breakers test stepped
  | late at_gate own spared db queues => exact Phase.late_step at_gate own spared db queues stepped
  | turned defers own spared rows queues =>
    exact Phase.turned_step defers own spared rows queues stepped
  | deferred exits spared rows retries =>
    exact Phase.deferred_step exits spared rows retries stepped
  | passed exits =>
    obtain ⟨exits', none_turned⟩ := step_beyond stepped exits
    simp only [none_turned]
    exact .passed exits'
  | ended left =>
    rcases left with ack | finished
    · rw [ack] at stepped
      cases stepped
      exact .ended (Or.inr rfl)
    · rw [finished] at stepped
      cases stepped

theorem membersNamed_run {shardOf : Nat → Nat} {w : World}
    (run : Run (World.step env) (fun _ _ => True) (World.initial shardOf) w) :
    MembersNamed env w.store := by
  intro m listed d row
  obtain ⟨known, shard⟩ := (World.consistent_run run).core.members m listed
  have fields : d.fields = m.fields := known.fields_eq row
  have deliveryId : d.id = m.deliveryId := congrArg Fields.deliveryId fields
  have eventId : d.eventId = m.eventId := congrArg Fields.eventId fields
  have endpointId : d.endpointId = m.endpointId := congrArg Fields.endpointId fields
  rw [deliveryId, eventId, endpointId, encodeMember, ← shard]

end Gating

end Relay
