import Relay.Store
import Relay.Delivery.Retry

/-!
# The worker

`handle_message`, `deliver_with_gates`, `check_gates` and `process_delivery` as
one program counter whose constructors carry the live local variables. A step
executes the awaited call of its location and runs on to the next await. A call
that raises is not a step of this function: `Pc.onRaise` says where control
goes then, and a location whose call cannot succeed has no step.
-/

namespace Relay.Worker

open CircuitBreaker Enqueue RetryQueue Retry

def reclaimMinIdleMs : ℚ := 60000
def reclaimCount : Nat := 10
def rateLimitRetryDelayS : ℚ := 1 / 2
def concurrencyRetryDelayS : ℚ := 1 / 2
def orderedWaitS : ℚ := 1 / 4
def breakerRecheckDelayS : ℚ := 30

/-- Settings, and Python's `float` on the text of a header. -/
structure Env where
  settings : Settings := {}
  float : String → Option PyFloat

/-- `Text` is what a snippet may be: any `str`, or one that UTF-8 encodes. -/
structure AttemptResult (Text : Type) where
  latencyMs : Nat
  httpStatus : Option Nat
  errorClass : Option String
  responseSnippet : Option Text
  retryAfter : Option String := none

def AttemptResult.succeeded {Text : Type} (r : AttemptResult Text) : Bool := r.errorClass.isNone

/-- What the surroundings decide in one step: fresh random ids, what `send_delivery`
returns and the jitter that is drawn. When it raises instead, or returns a snippet
that no commit can send to Postgres, the handling goes on with `Pc.onRaise`. -/
structure Choice where
  token : Uuid := 0
  result : AttemptResult String := ⟨0, some 200, none, none, none⟩
  jitter : ℚ := 1

/-- Local variables of `deliver_with_gates`. The session's copies hold the
values that were last loaded or flushed; a later select does not refresh them. -/
structure Locals where
  now : ℚ
  delivery : Delivery
  endpoint : Endpoint
  lockToken : Option Uuid := none
  decision : Option Decision := none

inductive Pc where
  | loadDelivery (now : ℚ)
  | loadEndpoint (now : ℚ) (delivery : Delivery)
  | acquireLock (v : Locals)
  | peekHead (v : Locals)
  | releaseNotHead (v : Locals)
  | deferWaiting (v : Locals) (dueAt : ℚ)
  | allowRequest (v : Locals)
  | getState (v : Locals)
  | disable (v : Locals)
  | loadTenant (v : Locals)
  | takeToken (v : Locals) (rate : Nat)
  | loadTenantAgain (v : Locals)
  | acquireSlot (v : Locals) (cap : Nat)
  | deferGated (v : Locals) (dueAt : ℚ)
  | reloadDelivery (v : Locals) (slot : Uuid)
  | reloadEndpoint (v : Locals) (slot : Uuid)
  | loadEvent (v : Locals) (slot : Uuid)
  | commitDelivering (v : Locals) (slot : Uuid)
  | send (v : Locals) (slot : Uuid)
  | receive (v : Locals) (slot : Uuid)
  | commitOutcome (v : Locals) (slot : Uuid) (attempt : DeliveryAttempt) (outcome : Delivery)
      (delay : Option ℚ)
  | scheduleRetry (v : Locals) (slot : Uuid) (dueAt : ℚ)
  | refresh (v : Locals) (slot : Uuid)
  | recordOutcome (v : Locals) (slot : Uuid) (time : ℚ)
  | publishTrigger (v : Locals) (slot : Uuid) (event : BreakerEvent)
  | popHead (v : Locals) (slot : Uuid)
  | releaseSlot (v : Locals) (slot : Uuid) (shouldAck : Bool)
  | releaseLock (v : Locals) (token : Uuid) (shouldAck : Bool)
  | close (shouldAck : Bool)
  | ack
  | finished

/-- `value or default`: NULL and zero fall back. -/
def orDefault (value : Option Nat) (default : Nat) : Nat :=
  match value with
  | none => default
  | some 0 => default
  | some n => n

def Locals.member (env : Env) (v : Locals) : Member :=
  encodeMember env.settings.streamShards v.delivery.id v.delivery.eventId v.endpoint.id

/-- `finally`, after the slot: the lock if there is one. -/
def Pc.unlock (v : Locals) (shouldAck : Bool) : Pc :=
  match v.lockToken with
  | some token => .releaseLock v token shouldAck
  | none => .close shouldAck

/-- After `record_outcome`: a settled delivery of an ordered endpoint is popped. -/
def Pc.afterOutcome (v : Locals) (slot : Uuid) : Pc :=
  if v.endpoint.ordering = .ordered ∧ v.delivery.status.Settled then .popHead v slot
  else .releaseSlot v slot true

/-- The rest of `process_delivery` once the response is there, up to the commit:
the new column values and the delay, or `none` when `timedelta` raises. -/
def resolve {Text : Type} (env : Env) (clock : ℚ) (v : Locals) (r : AttemptResult Text)
    (jitter : ℚ) : Option (Delivery × Option ℚ) :=
  if r.succeeded then
    some ({ v.delivery with status := .delivered, nextAttemptAt := none }, none)
  else
    match nextDelaySeconds env.float v.delivery.attemptCount r.httpStatus r.retryAfter
        env.settings.maxAttempts jitter with
    | none => some ({ v.delivery with status := .dead, nextAttemptAt := none }, none)
    | some (.finite delay) =>
      some ({ v.delivery with status := .failed, nextAttemptAt := some (clock + delay) },
        some delay)
    | some _ => none

/-- Postgres rejects U+0000 in a TEXT column. -/
def storable (a : DeliveryAttempt) : Bool :=
  match a.responseSnippet with
  | none => true
  | some text => !text.toList.contains (Char.ofNat 0)

/-- One await of the handling of `messageId` on `shard`, for delivery `id`. -/
def Pc.step (env : Env) (clock : ℚ) (c : Choice) (shard messageId : Nat) (id : Uuid)
    (s : Store) : Pc → Option (Store × Pc)
  | .loadDelivery now =>
    match s.db.delivery id with
    | none => some (s, .close true)
    | some row =>
      if row.status.Settled then some (s, .close true) else some (s, .loadEndpoint now row)
  | .loadEndpoint now delivery =>
    match s.db.endpoint delivery.endpointId with
    | none => some (s, .close true)
    | some endpoint =>
      if endpoint.status ≠ .active then some (s, .close true)
      else if endpoint.ordering = .ordered then
        some (s, .acquireLock { now := now, delivery := delivery, endpoint := endpoint })
      else some (s, .allowRequest { now := now, delivery := delivery, endpoint := endpoint })
  | .acquireLock v =>
    match s.acquireLock v.endpoint.id c.token clock with
    | none => some (s, .deferWaiting v (clock + orderedWaitS))
    | some s' => some (s', .peekHead { v with lockToken := some c.token })
  | .peekHead v =>
    match s.peekHead v.endpoint.id with
    | none => some (s, .allowRequest v)
    | some head =>
      if head = v.delivery.id then some (s, .allowRequest v) else some (s, .releaseNotHead v)
  | .releaseNotHead v =>
    some ((match v.lockToken with
      | some token => s.releaseLock v.endpoint.id token clock
      | none => s), .deferWaiting v (clock + orderedWaitS))
  | .deferWaiting v dueAt => some (s.scheduleRetry (v.member env) dueAt, .close true)
  | .allowRequest v =>
    match s.allowRequest v.endpoint.id v.now with
    | (s', .deny, _) => some (s', .getState { v with decision := some .deny })
    | (s', decision, _) => some (s', .loadTenant { v with decision := some decision })
  | .getState v =>
    if shouldAutoDisable (s.breakers v.endpoint.id) v.now then some (s, .disable v)
    else some (s, .deferGated v (clock + breakerRecheckDelayS))
  | .disable v =>
    some (s.setEndpointStatus v.endpoint.id .disabled,
      .deferGated v (clock + breakerRecheckDelayS))
  | .loadTenant v =>
    match s.db.tenant v.endpoint.tenantId with
    | none => none
    | some tenant =>
      some (s, .takeToken v (orDefault tenant.ratePerSec env.settings.defaultTenantRatePerSec))
  | .takeToken v rate =>
    match s.takeToken v.endpoint.tenantId rate clock v.now with
    | (s', true) => some (s', .loadTenantAgain v)
    | (s', false) => some (s', .deferGated v (clock + rateLimitRetryDelayS))
  | .loadTenantAgain v =>
    match s.db.tenant v.endpoint.tenantId with
    | none => none
    | some tenant =>
      some (s, .acquireSlot v
        (orDefault tenant.maxInflight env.settings.defaultTenantMaxInflight))
  | .acquireSlot v cap =>
    match s.acquireSlot v.endpoint.tenantId cap clock v.now c.token with
    | (s', true) => some (s', .reloadDelivery v c.token)
    | (s', false) => some (s', .deferGated v (clock + concurrencyRetryDelayS))
  | .deferGated v dueAt => some (s.scheduleRetry (v.member env) dueAt, Pc.unlock v true)
  | .reloadDelivery v slot =>
    -- only the existence of the row is news: the loaded attributes stay
    match s.db.delivery id with
    | none => some (s, .refresh v slot)
    | some _ =>
      if v.delivery.status = .delivered then some (s, .refresh v slot)
      else some (s, .reloadEndpoint v slot)
  | .reloadEndpoint v slot =>
    match s.db.endpoint v.delivery.endpointId with
    | none => some (s, .refresh v slot)
    | some _ => some (s, .loadEvent v slot)
  | .loadEvent v slot =>
    match s.db.event v.delivery.eventId with
    | none => some (s, .refresh v slot)
    | some _ => some (s, .commitDelivering v slot)
  | .commitDelivering v slot =>
    match s.db.delivery v.delivery.id with
    | none => none
    | some _ =>
      let current := { v.delivery with
        status := .delivering, attemptCount := v.delivery.attemptCount + 1 }
      some (s.commitDelivery .delivering v.delivery current,
        .send { v with delivery := current } slot)
  | .send v slot => some (s.logAttempt v.delivery.id clock, .receive v slot)
  | .receive v slot =>
    if jitterMin ≤ c.jitter ∧ c.jitter ≤ jitterMax then
      match resolve env clock v c.result c.jitter with
      | none => none
      | some (outcome, delay) =>
        some (s, .commitOutcome v slot
          { deliveryId := v.delivery.id
            attemptNumber := v.delivery.attemptCount
            latencyMs := c.result.latencyMs
            httpStatus := c.result.httpStatus
            errorClass := c.result.errorClass
            responseSnippet := c.result.responseSnippet } outcome delay)
    else none
  | .commitOutcome v slot attempt outcome delay =>
    match s.db.delivery v.delivery.id with
    | none => none
    | some _ =>
      if storable attempt then
        let s' := (s.addAttempt attempt).commitDelivery .outcome v.delivery outcome
        match delay with
        | some seconds =>
          some (s', .scheduleRetry { v with delivery := outcome } slot (clock + seconds))
        | none => some (s', .refresh { v with delivery := outcome } slot)
      else none
  | .scheduleRetry v slot dueAt => some (s.scheduleRetry (v.member env) dueAt, .refresh v slot)
  | .refresh v slot =>
    match s.db.delivery v.delivery.id with
    | none => none
    | some row => some (s, .recordOutcome { v with delivery := row } slot clock)
  | .recordOutcome v slot time =>
    let success := decide (v.delivery.status = .delivered)
    match s.recordOutcome v.endpoint.id success clock time c.token with
    | (s', o) =>
      if triggersDiagnosis success o then
        some (s', .publishTrigger v slot
          (.consecutiveFailures v.endpoint.id o.consecutive time))
      else some (s', Pc.afterOutcome v slot)
  | .publishTrigger v slot event => some (s.publish event, Pc.afterOutcome v slot)
  | .popHead v slot =>
    some (s.popHead v.endpoint.id v.delivery.id, .releaseSlot v slot true)
  | .releaseSlot v slot shouldAck =>
    some (s.releaseSlot v.endpoint.tenantId slot, Pc.unlock v shouldAck)
  | .releaseLock v token shouldAck =>
    some (s.releaseLock v.endpoint.id token clock, .close shouldAck)
  | .close shouldAck => some (s, if shouldAck then .ack else .finished)
  | .ack => some (s.onStream shard (fun log => log.xack messageId), .finished)
  | .finished => none

/-- Where an exception raised by the awaited call leads. Inside the `try` the
`finally` block gives back slot and lock. In every case the session is closed
and the entry is not acknowledged. -/
def Pc.onRaise : Pc → Pc
  | .allowRequest v | .getState v | .disable v | .loadTenant v | .takeToken v _
  | .loadTenantAgain v | .acquireSlot v _ | .deferGated v _ => Pc.unlock v false
  | .reloadDelivery v slot | .reloadEndpoint v slot | .loadEvent v slot
  | .commitDelivering v slot | .send v slot | .receive v slot | .commitOutcome v slot _ _ _
  | .scheduleRetry v slot _ | .refresh v slot | .recordOutcome v slot _
  | .publishTrigger v slot _ | .popHead v slot => .releaseSlot v slot false
  | .close _ | .ack | .finished => .finished
  | _ => .close false

end Relay.Worker
