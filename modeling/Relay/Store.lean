import Relay.Db.Models
import Relay.Delivery.CircuitBreaker
import Relay.Delivery.RateLimit
import Relay.Delivery.RetryQueue

/-!
# The shared store

Postgres and Redis as all processes see them. Every operation below is one
statement, command or script, hence one atomic step. `log` is the history of the
writes that results speak about, newest first; no operation reads it. `issued`
are the ids that `uuid4` has handed out to rows, which it never repeats.
-/

namespace Relay

open CircuitBreaker RateLimit Enqueue RetryQueue

/-- Who commits a delivery row. -/
inductive Stage where
  | delivering
  | outcome
  | requeued
  deriving DecidableEq

/-- Which kind of request appended a stream entry. -/
inductive Source where
  | ingest
  | replay
  | approve
  deriving DecidableEq

inductive LogEntry where
  | rpush (endpointId deliveryId : Uuid)
  | xadd (source : Source) (fields : Fields)
  | attempt (deliveryId : Uuid) (time : ℚ)
  | committed (stage : Stage) (row : Delivery)
  deriving DecidableEq

structure Store where
  db : Db
  queues : Queues
  ordered : Uuid → List Uuid
  locks : Uuid → Option (Expiring Uuid)
  breakers : Uuid → Breaker
  buckets : Uuid → Option (Expiring Bucket)
  inflight : Uuid → Option (Expiring (ZSet Uuid))
  published : List BreakerEvent
  log : List LogEntry
  issued : List Uuid

namespace Store

def lockTtl : ℚ := 30

/-! Ordering -/

def enqueueOrdered (s : Store) (endpointId deliveryId : Uuid) : Store :=
  { s with
    ordered := Function.update s.ordered endpointId (s.ordered endpointId ++ [deliveryId])
    log := .rpush endpointId deliveryId :: s.log }

/-- SET NX PX: the lock is free when its key is absent or expired. -/
def acquireLock (s : Store) (endpointId token : Uuid) (clock : ℚ) : Option Store :=
  match Expiring.live clock (s.locks endpointId) with
  | some _ => none
  | none =>
    some { s with locks := Function.update s.locks endpointId (some ⟨token, clock + lockTtl⟩) }

/-- `RELEASE_LOCK_LUA`: DEL only if the caller still owns the lock. -/
def releaseLock (s : Store) (endpointId token : Uuid) (clock : ℚ) : Store :=
  if Expiring.live clock (s.locks endpointId) = some token then
    { s with locks := Function.update s.locks endpointId none }
  else s

def peekHead (s : Store) (endpointId : Uuid) : Option Uuid := (s.ordered endpointId).head?

/-- LREM of the first occurrence. -/
def popHead (s : Store) (endpointId deliveryId : Uuid) : Store :=
  { s with
    ordered :=
      Function.update s.ordered endpointId ((s.ordered endpointId).erase deliveryId) }

/-! Streams and the retry set -/

def enqueueDelivery (s : Store) (streamShards : Nat) (source : Source) (f : Fields) : Store :=
  { s with
    queues := s.queues.xadd (shardFor streamShards f.endpointId) f
    log := .xadd source f :: s.log }

def scheduleRetry (s : Store) (m : Member) (dueAt : ℚ) : Store :=
  { s with queues := s.queues.scheduleRetry m dueAt }

def removeFromRetryQueue (s : Store) (m : Member) : Store :=
  { s with queues := s.queues.removeFromRetryQueue m }

def moveDueToStreams (s : Store) (now : ℚ) (limit : Nat) : Store :=
  { s with queues := s.queues.moveDueToStreams now limit }

def onStream (s : Store) (shard : Nat) (f : StreamLog Fields → StreamLog Fields) : Store :=
  { s with
    queues := { s.queues with
      streams := Function.update s.queues.streams shard (f (s.queues.streams shard)) } }

/-! Breaker, rate limit and slots -/

def allowRequest (s : Store) (endpointId : Uuid) (now : ℚ) : Store × Decision × BreakerState :=
  let answer := allowRequestLua (s.breakers endpointId) now
  ({ s with breakers := Function.update s.breakers endpointId answer.1 }, answer.2)

/-- The script of `record_outcome` with the message that it publishes. -/
def recordOutcome (s : Store) (endpointId : Uuid) (success : Bool) (clock now : ℚ)
    (member : Uuid) : Store × Outcome :=
  let before := (s.breakers endpointId).current
  let answer := recordOutcomeLua (s.breakers endpointId) clock now success member
  ({ s with
    breakers := Function.update s.breakers endpointId answer.1
    published := s.published ++ transitionEvent endpointId before answer.2 now }, answer.2)

def publish (s : Store) (e : BreakerEvent) : Store := { s with published := s.published ++ [e] }

def resetBreaker (s : Store) (endpointId : Uuid) : Store :=
  { s with breakers := Function.update s.breakers endpointId CircuitBreaker.reset }

def takeToken (s : Store) (tenantId : Uuid) (rate : Nat) (clock now : ℚ) : Store × Bool :=
  let answer := RateLimit.takeToken (s.buckets tenantId) clock rate now
  ({ s with buckets := Function.update s.buckets tenantId answer.1 }, answer.2)

def acquireSlot (s : Store) (tenantId : Uuid) (cap : Nat) (clock now : ℚ) (token : Uuid) :
    Store × Bool :=
  let answer := RateLimit.acquireSlot (s.inflight tenantId) clock cap now token
  ({ s with inflight := Function.update s.inflight tenantId answer.1 }, answer.2)

def releaseSlot (s : Store) (tenantId token : Uuid) : Store :=
  { s with
    inflight := Function.update s.inflight tenantId
      (RateLimit.releaseSlot (s.inflight tenantId) token) }

/-! Commits -/

/-- Commit of one changed delivery row; the history keeps the row that results. -/
def commitDelivery (s : Store) (stage : Stage) (loaded current : Delivery) : Store :=
  { s with
    db := s.db.updateDelivery loaded current
    log := ((s.db.delivery loaded.id).map
      (fun row => LogEntry.committed stage (loaded.flush current row))).toList ++ s.log }

def addAttempt (s : Store) (a : DeliveryAttempt) : Store :=
  { s with db := { s.db with attempts := s.db.attempts ++ [a] } }

def setEndpointStatus (s : Store) (endpointId : Uuid) (status : EndpointStatus) : Store :=
  { s with db := s.db.setEndpointStatus endpointId status }

def logAttempt (s : Store) (deliveryId : Uuid) (time : ℚ) : Store :=
  { s with log := .attempt deliveryId time :: s.log }

/-! What the lock operations do -/

theorem acquireLock_some {s s' : Store} {endpointId token : Uuid} {clock : ℚ}
    (acquired : s.acquireLock endpointId token clock = some s') :
    Expiring.live clock (s.locks endpointId) = none ∧
      s'.locks = Function.update s.locks endpointId (some ⟨token, clock + lockTtl⟩) := by
  unfold acquireLock at acquired
  split at acquired
  · cases acquired
  · rename_i free
    cases acquired
    exact ⟨free, rfl⟩

theorem releaseLock_kept {s : Store} {endpointId token : Uuid} {clock : ℚ}
    (other : Expiring.live clock (s.locks endpointId) ≠ some token) :
    s.releaseLock endpointId token clock = s := if_neg other

theorem locks_releaseLock (s : Store) (endpointId token : Uuid) (clock : ℚ) :
    (s.releaseLock endpointId token clock).locks = s.locks ∨
      (Expiring.live clock (s.locks endpointId) = some token ∧
        (s.releaseLock endpointId token clock).locks =
          Function.update s.locks endpointId none) := by
  unfold releaseLock
  split
  · rename_i own
    exact Or.inr ⟨own, rfl⟩
  · exact Or.inl rfl

end Store

end Relay
