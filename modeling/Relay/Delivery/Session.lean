import Relay.Core
import Relay.Delivery.Worker

/-!
# What one handling does to the durable core

The abstract worker. Of the program counter it keeps which writes are still to
come and which copies of rows they use; `Move` lists everything an await can do
to the core. The gates in front of an attempt are one state, `gated`.
-/

namespace Relay.Worker

open Enqueue RetryQueue

inductive Session where
  | start
  | loaded (d : Delivery)
  | queueing (d : Delivery) (e : Endpoint)
  | waiting (d : Delivery) (e : Endpoint)
  | gated (d : Delivery) (e : Endpoint)
  | sending (d : Delivery) (e : Endpoint)
  | receiving (d : Delivery) (e : Endpoint)
  | committing (d : Delivery) (e : Endpoint) (outcome : Delivery) (delay : Option ℚ)
  | scheduling (d : Delivery) (e : Endpoint) (dueAt : ℚ)
  | refreshing (d : Delivery) (e : Endpoint)
  | recording (d : Delivery) (e : Endpoint)
  | popping (d : Delivery) (e : Endpoint)
  | leaving (acks : Bool)
  | finished

def Pc.session : Pc → Session
  | .loadDelivery _ => .start
  | .loadEndpoint _ d => .loaded d
  | .acquireLock v | .peekHead v => .queueing v.delivery v.endpoint
  | .releaseNotHead v | .deferWaiting v _ => .waiting v.delivery v.endpoint
  | .allowRequest v | .getState v | .disable v | .loadTenant v | .takeToken v _
  | .loadTenantAgain v | .acquireSlot v _ | .deferGated v _ | .reloadDelivery v _
  | .reloadEndpoint v _ | .loadEvent v _ | .commitDelivering v _ => .gated v.delivery v.endpoint
  | .send v _ => .sending v.delivery v.endpoint
  | .receive v _ => .receiving v.delivery v.endpoint
  | .commitOutcome v _ _ outcome delay => .committing v.delivery v.endpoint outcome delay
  | .scheduleRetry v _ dueAt => .scheduling v.delivery v.endpoint dueAt
  | .refresh v _ => .refreshing v.delivery v.endpoint
  | .recordOutcome v _ _ | .publishTrigger v _ _ => .recording v.delivery v.endpoint
  | .popHead v _ => .popping v.delivery v.endpoint
  | .releaseSlot _ _ acks | .releaseLock _ _ acks | .close acks => .leaving acks
  | .ack => .leaving true
  | .finished => .finished

theorem Pc.session_finished {pc : Pc} : pc.session = .finished ↔ pc = .finished := by
  cases pc <;> simp [Pc.session]

/-- The row that the first commit of an attempt writes. -/
def delivering (d : Delivery) : Delivery :=
  { d with status := .delivering, attemptCount := d.attemptCount + 1 }

/-- The outcomes of an attempt that is answered at `clock`. -/
inductive Resolved (clock : ℚ) (d : Delivery) : Delivery → Option ℚ → Prop
  | delivered : Resolved clock d { d with status := .delivered, nextAttemptAt := none } none
  | dead : Resolved clock d { d with status := .dead, nextAttemptAt := none } none
  | failed (delay : ℚ) :
      Resolved clock d { d with status := .failed, nextAttemptAt := some (clock + delay) }
        (some delay)

def retryMember (env : Env) (d : Delivery) (e : Endpoint) : Member :=
  encodeMember env.settings.streamShards d.id d.eventId e.id

/-- One await of the handling of `messageId` on `shard` for delivery `id`: the
session before, the core after, the session after. -/
inductive Move (env : Env) (clock : ℚ) (shard messageId : Nat) (id : Uuid) (s : Store) :
    Session → Core → Session → Prop
  | stay {q : Session} : Move env clock shard messageId id s q s.core q
  | settled (row : ∀ d, s.db.delivery id = some d → d.status.Settled) :
      Move env clock shard messageId id s .start s.core (.leaving true)
  | load {d : Delivery} (row : s.db.delivery id = some d) (fresh : ¬ d.status.Settled) :
      Move env clock shard messageId id s .start s.core (.loaded d)
  | inactive {d : Delivery}
      (row : ∀ e, s.db.endpoint d.endpointId = some e → e.status ≠ .active) :
      Move env clock shard messageId id s (.loaded d) s.core (.leaving true)
  | queue {d : Delivery} {e : Endpoint} (row : s.db.endpoint d.endpointId = some e)
      (ordered : e.ordering = .ordered) :
      Move env clock shard messageId id s (.loaded d) s.core (.queueing d e)
  | gate {d : Delivery} {e : Endpoint} (row : s.db.endpoint d.endpointId = some e)
      (unordered : e.ordering ≠ .ordered) :
      Move env clock shard messageId id s (.loaded d) s.core (.gated d e)
  | pass {d : Delivery} {e : Endpoint} (head : ∀ a, s.peekHead e.id = some a → a = d.id) :
      Move env clock shard messageId id s (.queueing d e) s.core (.gated d e)
  | wait {d : Delivery} {e : Endpoint} :
      Move env clock shard messageId id s (.queueing d e) s.core (.waiting d e)
  | deferWaiting {d : Delivery} {e : Endpoint} (dueAt : ℚ) :
      Move env clock shard messageId id s (.waiting d e)
        (s.core.scheduleRetry (retryMember env d e) dueAt) (.leaving true)
  | deferGated {d : Delivery} {e : Endpoint} (dueAt : ℚ) :
      Move env clock shard messageId id s (.gated d e)
        (s.core.scheduleRetry (retryMember env d e) dueAt) (.leaving true)
  | vanished {d : Delivery} {e : Endpoint}
      (missing : s.db.delivery id = none ∨ d.status = .delivered ∨
        s.db.endpoint d.endpointId = none ∨ s.db.event d.eventId = none) :
      Move env clock shard messageId id s (.gated d e) s.core (.refreshing d e)
  | commitDelivering {d row : Delivery} {e : Endpoint} (found : s.db.delivery d.id = some row) :
      Move env clock shard messageId id s (.gated d e)
        (s.core.commitDelivery .delivering d (delivering d)) (.sending (delivering d) e)
  | send {d : Delivery} {e : Endpoint} :
      Move env clock shard messageId id s (.sending d e) (s.core.logAttempt d.id clock)
        (.receiving d e)
  | receive {d outcome : Delivery} {e : Endpoint} {delay : Option ℚ}
      (resolved : Resolved clock d outcome delay) :
      Move env clock shard messageId id s (.receiving d e) s.core (.committing d e outcome delay)
  | commitFailed {d row outcome : Delivery} {e : Endpoint} {delay : ℚ}
      (found : s.db.delivery d.id = some row) :
      Move env clock shard messageId id s (.committing d e outcome (some delay))
        (s.core.commitDelivery .outcome d outcome) (.scheduling outcome e (clock + delay))
  | commitSettled {d row outcome : Delivery} {e : Endpoint}
      (found : s.db.delivery d.id = some row) :
      Move env clock shard messageId id s (.committing d e outcome none)
        (s.core.commitDelivery .outcome d outcome) (.refreshing outcome e)
  | schedule {d : Delivery} {e : Endpoint} {dueAt : ℚ} :
      Move env clock shard messageId id s (.scheduling d e dueAt)
        (s.core.scheduleRetry (retryMember env d e) dueAt) (.refreshing d e)
  | refresh {d row : Delivery} {e : Endpoint} (found : s.db.delivery d.id = some row) :
      Move env clock shard messageId id s (.refreshing d e) s.core (.recording row e)
  | keep {d : Delivery} {e : Endpoint} (stays : ¬ (e.ordering = .ordered ∧ d.status.Settled)) :
      Move env clock shard messageId id s (.recording d e) s.core (.leaving true)
  | toPop {d : Delivery} {e : Endpoint} (ordered : e.ordering = .ordered)
      (settled : d.status.Settled) :
      Move env clock shard messageId id s (.recording d e) s.core (.popping d e)
  | pop {d : Delivery} {e : Endpoint} :
      Move env clock shard messageId id s (.popping d e) (s.core.popHead e.id d.id)
        (.leaving true)
  | ack :
      Move env clock shard messageId id s (.leaving true)
        (s.core.onStream shard (fun log => log.xack messageId)) .finished
  | giveUp : Move env clock shard messageId id s (.leaving false) s.core .finished

@[simp] theorem Pc.session_unlock (v : Locals) (acks : Bool) :
    (Pc.unlock v acks).session = .leaving acks := by
  unfold Pc.unlock
  split <;> rfl

theorem resolve_resolved {Text : Type} {env : Env} {clock jitter : ℚ} {v : Locals}
    {r : AttemptResult Text}
    {outcome : Delivery} {delay : Option ℚ}
    (h : resolve env clock v r jitter = some (outcome, delay)) :
    Resolved clock v.delivery outcome delay := by
  unfold resolve at h
  split at h
  · cases h
    exact .delivered
  · split at h
    · cases h
      exact .dead
    · cases h
      exact .failed _
    · cases h

theorem afterOutcome_move (env : Env) (clock : ℚ) (shard messageId : Nat) (id : Uuid) (s : Store)
    (v : Locals) (slot : Uuid) :
    Move env clock shard messageId id s (.recording v.delivery v.endpoint) s.core
      (Pc.afterOutcome v slot).session := by
  unfold Pc.afterOutcome
  split
  · rename_i pops
    exact .toPop pops.1 pops.2
  · rename_i stays
    exact .keep stays

/-- Every await of the worker is a move. -/
theorem Pc.step_move {env : Env} {clock : ℚ} {c : Choice} {shard messageId : Nat} {id : Uuid}
    {s s' : Store} {pc pc' : Pc}
    (h : pc.step env clock c shard messageId id s = some (s', pc')) :
    Move env clock shard messageId id s pc.session s'.core pc'.session := by
  cases pc with
  | loadDelivery now =>
    simp only [Pc.step] at h
    split at h
    · rename_i absent
      cases h
      exact .settled (fun d found => by simp [absent] at found)
    · rename_i row found
      split at h
      · rename_i settled
        cases h
        refine .settled (fun d same => ?_)
        rw [found] at same
        exact Option.some.inj same ▸ settled
      · rename_i fresh
        cases h
        exact .load found fresh
  | loadEndpoint now d =>
    simp only [Pc.step] at h
    split at h
    · rename_i absent
      cases h
      exact .inactive (fun e found => by simp [absent] at found)
    · rename_i e found
      split at h
      · rename_i inactive
        cases h
        refine .inactive (fun e' same => ?_)
        rw [found] at same
        exact Option.some.inj same ▸ inactive
      · split at h
        · rename_i ordered
          cases h
          exact .queue found ordered
        · rename_i unordered
          cases h
          exact .gate found unordered
  | acquireLock v =>
    simp only [Pc.step] at h
    split at h
    · cases h
      exact .wait
    · rename_i locked acquired
      cases h
      unfold Store.acquireLock at acquired
      split at acquired
      · cases acquired
      · cases acquired
        exact .stay
  | peekHead v =>
    simp only [Pc.step] at h
    split at h
    · rename_i empty
      cases h
      exact .pass (fun a found => by simp [empty] at found)
    · rename_i head found
      split at h
      · rename_i mine
        cases h
        refine .pass (fun a same => ?_)
        rw [found] at same
        exact Option.some.inj same ▸ mine
      · cases h
        exact .wait
  | releaseNotHead v =>
    simp only [Pc.step] at h
    cases h
    split
    · unfold Store.releaseLock
      split <;> exact .stay
    · exact .stay
  | deferWaiting v dueAt =>
    cases h
    exact .deferWaiting dueAt
  | allowRequest v =>
    simp only [Pc.step] at h
    split at h
    all_goals
      rename_i answer
      cases h
      have same := congrArg (fun a => a.1.core) answer
      simp only [Store.core_allowRequest] at same
      rw [← same]
      exact .stay
  | getState v =>
    simp only [Pc.step] at h
    split at h <;> cases h <;> exact .stay
  | disable v =>
    cases h
    rw [Store.core_setEndpointStatus]
    exact .stay
  | loadTenant v =>
    simp only [Pc.step] at h
    split at h <;> cases h
    exact .stay
  | takeToken v rate =>
    simp only [Pc.step] at h
    split at h
    all_goals
      rename_i answer
      cases h
      have same := congrArg (fun a => a.1.core) answer
      simp only [Store.core_takeToken] at same
      rw [← same]
      exact .stay
  | loadTenantAgain v =>
    simp only [Pc.step] at h
    split at h <;> cases h
    exact .stay
  | acquireSlot v cap =>
    simp only [Pc.step] at h
    split at h
    all_goals
      rename_i answer
      cases h
      have same := congrArg (fun a => a.1.core) answer
      simp only [Store.core_acquireSlot] at same
      rw [← same]
      exact .stay
  | deferGated v dueAt =>
    cases h
    rw [Pc.session_unlock]
    exact .deferGated dueAt
  | reloadDelivery v slot =>
    simp only [Pc.step] at h
    split at h
    · rename_i absent
      cases h
      exact .vanished (Or.inl absent)
    · split at h
      · rename_i delivered
        cases h
        exact .vanished (Or.inr (Or.inl delivered))
      · cases h
        exact .stay
  | reloadEndpoint v slot =>
    simp only [Pc.step] at h
    split at h
    · rename_i absent
      cases h
      exact .vanished (Or.inr (Or.inr (Or.inl absent)))
    · cases h
      exact .stay
  | loadEvent v slot =>
    simp only [Pc.step] at h
    split at h
    · rename_i absent
      cases h
      exact .vanished (Or.inr (Or.inr (Or.inr absent)))
    · cases h
      exact .stay
  | commitDelivering v slot =>
    simp only [Pc.step] at h
    split at h
    · cases h
    · rename_i row found
      cases h
      exact .commitDelivering found
  | send v slot =>
    cases h
    exact .send
  | receive v slot =>
    simp only [Pc.step] at h
    split at h
    · split at h
      · cases h
      · rename_i outcome delay resolved
        cases h
        exact .receive (resolve_resolved resolved)
    · cases h
  | commitOutcome v slot attempt outcome delay =>
    simp only [Pc.step] at h
    split at h
    · cases h
    · rename_i row found
      split at h
      · cases delay with
        | none =>
          cases h
          exact .commitSettled found
        | some seconds =>
          cases h
          exact .commitFailed found
      · cases h
  | scheduleRetry v slot dueAt =>
    cases h
    exact .schedule
  | refresh v slot =>
    simp only [Pc.step] at h
    split at h
    · cases h
    · rename_i row found
      cases h
      exact .refresh found
  | recordOutcome v slot time =>
    simp only [Pc.step] at h
    split at h
    · cases h
      exact .stay
    · cases h
      exact afterOutcome_move env clock shard messageId id s v slot
  | publishTrigger v slot event =>
    cases h
    exact afterOutcome_move env clock shard messageId id s v slot
  | popHead v slot =>
    cases h
    exact .pop
  | releaseSlot v slot acks =>
    cases h
    rw [Pc.session_unlock]
    exact .stay
  | releaseLock v token acks =>
    cases h
    unfold Store.releaseLock
    split <;> exact .stay
  | close acks =>
    cases h
    cases acks with
    | true => exact .stay
    | false => exact .giveUp
  | ack =>
    cases h
    exact .ack
  | finished => cases h

theorem Move.extends {env : Env} {clock : ℚ} {shard messageId : Nat} {id : Uuid} {s : Store}
    {q q' : Session} {c : Core} (h : Move env clock shard messageId id s q c q') :
    s.core.Extends c := by
  cases h with
  | deferWaiting | deferGated | schedule => exact s.core.extends_scheduleRetry _ _
  | commitDelivering | commitFailed | commitSettled =>
    exact s.core.extends_commitDelivery _ _ _
  | send => exact s.core.extends_logAttempt _ _
  | pop => exact s.core.extends_popHead _ _
  | ack => exact s.core.extends_onStream shard (fun log => log.xack_entries messageId)
  | _ => exact .refl _

/-- After an exception only the `finally` blocks remain. -/
theorem Pc.onRaise_session (pc : Pc) :
    pc.onRaise.session = .leaving false ∨ pc.onRaise = .finished := by
  cases pc
  all_goals
    first
      | exact Or.inl (Pc.session_unlock _ _)
      | exact Or.inl rfl
      | exact Or.inr rfl

end Relay.Worker
