import Relay.Delivery.Attempt
import Relay.Lib.Register
import Relay.Pipeline.Ingestion
import Relay.Pipeline.Rows

/-!
# The audit trail as a register

`attempt_count` is the counter of a register, the commit of `delivering` draws a
number, the reply is written into a record, and the commit of the outcome files
it as an attempt row. A step of the pipeline is a step of this register unless a
worker lets go of a number or commits a count that is no longer current.
-/

namespace Relay

open Enqueue RetryQueue Worker Api Register

namespace Store

/-- The attempt count in the row; 0 without one. -/
def count (s : Store) (id : Uuid) : Nat := (s.db.delivery id).elim 0 Delivery.attemptCount

def attemptsOf (s : Store) (id : Uuid) : List DeliveryAttempt :=
  s.db.attempts.filter (fun a => a.deliveryId = id)

theorem count_of_deliveries {s s' : Store} (deliveries : s'.db.deliveries = s.db.deliveries)
    (id : Uuid) : s'.count id = s.count id := by
  simp only [count, Db.delivery, deliveries]

theorem attemptsOf_of_attempts {s s' : Store} (attempts : s'.db.attempts = s.db.attempts)
    (id : Uuid) : s'.attemptsOf id = s.attemptsOf id := by
  simp only [attemptsOf, attempts]

variable {s : Store} {stage : Stage} {loaded current : Delivery} {id : Uuid}

theorem count_commit_ne (other : loaded.id ≠ id) :
    (s.commitDelivery stage loaded current).count id = s.count id := by
  have commits : (s.commitDelivery stage loaded current).db.delivery id = s.db.delivery id :=
    (s.db.delivery_updateDelivery loaded current id).trans (if_neg (Ne.symm other))
  simp only [count, commits]

/-- A count that the session did not change is not written. -/
theorem count_commit_kept (same : current.attemptCount = loaded.attemptCount) :
    (s.commitDelivery stage loaded current).count id = s.count id := by
  by_cases mine : loaded.id = id
  · subst mine
    unfold count
    rw [delivery_commit]
    cases s.db.delivery loaded.id with
    | none => rfl
    | some row => exact if_pos same
  · exact count_commit_ne mine

theorem count_commit_new {row : Delivery} (found : s.db.delivery loaded.id = some row)
    (changed : current.attemptCount ≠ loaded.attemptCount) :
    (s.commitDelivery stage loaded current).count loaded.id = current.attemptCount := by
  unfold count
  rw [delivery_commit, found]
  exact if_neg changed

end Store

namespace Worker

/-- The number that a handling holds for delivery `id` between the two commits. -/
def Pc.slip (id : Uuid) : Pc → Option (Slip DeliveryAttempt)
  | .send v _ | .receive v _ =>
    if v.delivery.id = id then some (.drawn v.delivery.attemptCount) else none
  | .commitOutcome _ _ attempt _ _ =>
    if attempt.deliveryId = id then some (.written attempt) else none
  | _ => none

/-- The record of the reply that the await receives. -/
def Pc.answers (c : Choice) : Pc → List DeliveryAttempt
  | .receive v _ => [attemptRow v.delivery c.result]
  | _ => []

/-- What an await does to the attempt counts and the attempt rows. -/
inductive Pc.Books (c : Choice) (s : Store) : Pc → Store → Pc → Prop
  | quiet {pc pc' : Pc} {s' : Store} (silent : pc.answers c = [])
      (slip : ∀ id, pc'.slip id = pc.slip id) (deliveries : s'.db.deliveries = s.db.deliveries)
      (attempts : s'.db.attempts = s.db.attempts) : Books c s pc s' pc'
  | begins {v : Locals} {slot : Uuid} {row : Delivery}
      (found : s.db.delivery v.delivery.id = some row) : Books c s (.commitDelivering v slot)
        (s.commitDelivery .delivering v.delivery (delivering v.delivery))
        (.send { v with delivery := delivering v.delivery } slot)
  | answered {v : Locals} {slot : Uuid} {outcome : Delivery} {delay : Option ℚ} :
      Books c s (.receive v slot) s
        (.commitOutcome v slot (attemptRow v.delivery c.result) outcome delay)
  | records {v : Locals} {slot : Uuid} {attempt : DeliveryAttempt} {outcome : Delivery}
      {delay : Option ℚ} {pc' : Pc} (slip : ∀ id, pc'.slip id = none) :
      Books c s (.commitOutcome v slot attempt outcome delay)
        ((s.addAttempt attempt).commitDelivery .outcome v.delivery outcome) pc'

theorem Pc.Books.of_db {c : Choice} {s s' : Store} {pc pc' : Pc} (silent : pc.answers c = [])
    (slip : ∀ id, pc'.slip id = pc.slip id) (db : s'.db = s.db) : Books c s pc s' pc' :=
  .quiet silent slip (congrArg Db.deliveries db) (congrArg Db.attempts db)

theorem Pc.slip_unlock (id : Uuid) (v : Locals) (acks : Bool) :
    (Pc.unlock v acks).slip id = none := by
  unfold Pc.unlock
  split <;> rfl

theorem Pc.slip_afterOutcome (id : Uuid) (v : Locals) (slot : Uuid) :
    (Pc.afterOutcome v slot).slip id = none := by
  unfold Pc.afterOutcome
  split <;> rfl

theorem Pc.slip_onRaise (id : Uuid) (pc : Pc) : pc.onRaise.slip id = none := by
  cases pc
  all_goals
    first
      | exact Pc.slip_unlock id _ _
      | rfl

theorem Pc.step_books {env : Env} {clock : ℚ} {c : Choice} {shard messageId : Nat} {id : Uuid}
    {s s' : Store} {pc pc' : Pc}
    (h : pc.step env clock c shard messageId id s = some (s', pc')) : Pc.Books c s pc s' pc' := by
  cases pc with
  | loadDelivery now =>
    simp only [Pc.step] at h
    split at h
    · cases h
      exact .of_db rfl (fun _ => rfl) rfl
    · split at h <;> cases h <;> exact .of_db rfl (fun _ => rfl) rfl
  | loadEndpoint now d =>
    simp only [Pc.step] at h
    split at h
    · cases h
      exact .of_db rfl (fun _ => rfl) rfl
    · split at h
      · cases h
        exact .of_db rfl (fun _ => rfl) rfl
      · split at h <;> cases h <;> exact .of_db rfl (fun _ => rfl) rfl
  | acquireLock v =>
    simp only [Pc.step] at h
    split at h
    · cases h
      exact .of_db rfl (fun _ => rfl) rfl
    · rename_i acquired
      cases h
      unfold Store.acquireLock at acquired
      split at acquired <;> cases acquired
      exact .of_db rfl (fun _ => rfl) rfl
  | peekHead v =>
    simp only [Pc.step] at h
    split at h
    · cases h
      exact .of_db rfl (fun _ => rfl) rfl
    · split at h <;> cases h <;> exact .of_db rfl (fun _ => rfl) rfl
  | releaseNotHead v =>
    simp only [Pc.step] at h
    cases h
    split
    · unfold Store.releaseLock
      split <;> exact .of_db rfl (fun _ => rfl) rfl
    · exact .of_db rfl (fun _ => rfl) rfl
  | getState v =>
    simp only [Pc.step] at h
    split at h <;> cases h <;> exact .of_db rfl (fun _ => rfl) rfl
  | disable v =>
    cases h
    exact .quiet rfl (fun _ => rfl) rfl rfl
  | allowRequest v | takeToken v rate | acquireSlot v cap =>
    simp only [Pc.step] at h
    split at h
    all_goals
      rename_i answer
      cases h
      exact .of_db rfl (fun _ => rfl) (congrArg (fun a => a.1.db) answer).symm
  | loadTenant v | loadTenantAgain v =>
    simp only [Pc.step] at h
    split at h <;> cases h
    exact .of_db rfl (fun _ => rfl) rfl
  | reloadDelivery v slot =>
    simp only [Pc.step] at h
    split at h
    · cases h
      exact .of_db rfl (fun _ => rfl) rfl
    · split at h <;> cases h <;> exact .of_db rfl (fun _ => rfl) rfl
  | reloadEndpoint v slot | loadEvent v slot =>
    simp only [Pc.step] at h
    split at h <;> cases h <;> exact .of_db rfl (fun _ => rfl) rfl
  | commitDelivering v slot =>
    simp only [Pc.step] at h
    split at h <;> cases h
    rename_i found
    exact .begins found
  | receive v slot =>
    simp only [Pc.step] at h
    split at h
    · split at h <;> cases h
      exact .answered
    · cases h
  | commitOutcome v slot attempt outcome delay =>
    simp only [Pc.step] at h
    split at h
    · cases h
    · split at h
      · split at h <;> cases h <;> exact .records (fun _ => rfl)
      · cases h
  | refresh v slot =>
    simp only [Pc.step] at h
    split at h <;> cases h
    exact .of_db rfl (fun _ => rfl) rfl
  | recordOutcome v slot time =>
    simp only [Pc.step] at h
    split at h
    · cases h
      exact .of_db rfl (fun _ => rfl) rfl
    · cases h
      exact .of_db rfl (fun id => Pc.slip_afterOutcome id v slot) rfl
  | publishTrigger v slot event =>
    cases h
    exact .of_db rfl (fun id => Pc.slip_afterOutcome id v slot) rfl
  | deferGated v dueAt | releaseSlot v slot acks =>
    cases h
    exact .of_db rfl (fun id => Pc.slip_unlock id v _) rfl
  | releaseLock v token acks =>
    cases h
    unfold Store.releaseLock
    split <;> exact .of_db rfl (fun _ => rfl) rfl
  | close acks =>
    cases h
    cases acks <;> exact .of_db rfl (fun _ => rfl) rfl
  | deferWaiting v dueAt | send v slot | scheduleRetry v slot dueAt | popHead v slot | ack =>
    cases h
    exact .of_db rfl (fun _ => rfl) rfl
  | finished => cases h

/-- A number comes from the first commit of an attempt. -/
theorem Pc.Books.origin {c : Choice} {s s' : Store} {pc pc' : Pc} {id : Uuid}
    (books : Pc.Books c s pc s' pc') (holds : (pc'.slip id).isSome = true) :
    (pc.slip id).isSome = true ∨ ∃ v slot, pc = .commitDelivering v slot ∧
    v.delivery.id = id := by
  cases books with
  | quiet _ slip => exact Or.inl (slip id ▸ holds)
  | begins =>
    simp only [Pc.slip] at holds
    split at holds
    · rename_i own
      exact Or.inr ⟨_, _, rfl, own⟩
    · cases holds
  | @answered v =>
    simp only [Pc.slip] at holds ⊢
    split at holds
    · rename_i own
      have mine : v.delivery.id = id := own
      left
      rw [if_pos mine]
      rfl
    · cases holds
  | records slip =>
    rw [slip id] at holds
    cases holds

/-- An await is a step of the register if the count that it commits is current. -/
theorem Pc.Books.step {c : Choice} {s s' : Store} {pc pc' : Pc} {id : Uuid} {w : Nat}
    {hands : Nat → Option (Slip DeliveryAttempt)} (written : List DeliveryAttempt)
    (books : Pc.Books c s pc s' pc') (mine : hands w = pc.slip id)
    (current : ∀ v slot, pc = .commitDelivering v slot → v.delivery.id = id →
      s.count id = v.delivery.attemptCount)
    (kept : ∀ v slot attempt outcome delay, pc = .commitOutcome v slot attempt outcome delay →
      outcome.attemptCount = v.delivery.attemptCount) :
    Register.Step DeliveryAttempt.attemptNumber ⟨s.count id, hands, written, s.attemptsOf id⟩
      ⟨s'.count id, Function.update hands w (pc'.slip id),
        (pc.answers c).filter (fun a => a.deliveryId = id) ++ written, s'.attemptsOf id⟩ := by
  cases books with
  | quiet silent slip deliveries attempts =>
    rw [Store.count_of_deliveries deliveries, Store.attemptsOf_of_attempts attempts, slip, ← mine,
      Function.update_eq_self, silent]
    exact .stay
  | @begins v slot row found =>
    have free : hands w = none := mine
    by_cases own : v.delivery.id = id
    · have counts : s.count id = v.delivery.attemptCount := current v slot rfl own
      have next : (s.commitDelivery .delivering v.delivery (delivering v.delivery)).count id =
          s.count id + 1 := by
        rw [counts]
        exact own ▸ Store.count_commit_new found (Nat.succ_ne_self _)
      have drawn : (Pc.send { v with delivery := delivering v.delivery } slot).slip id =
          some (.drawn (s.count id + 1)) := by
        rw [counts]
        exact if_pos own
      rw [next, drawn]
      exact .draw free
    · have none : (Pc.send { v with delivery := delivering v.delivery } slot).slip id = none :=
        if_neg own
      rw [Store.count_commit_ne own, none, ← free, Function.update_eq_self]
      exact .stay
  | @answered v slot outcome delay =>
    by_cases own : v.delivery.id = id
    · have holds : hands w =
          some (.drawn (attemptRow v.delivery c.result).attemptNumber) := mine.trans (if_pos own)
      have written : (Pc.commitOutcome v slot (attemptRow v.delivery c.result) outcome
          delay).slip id = some (.written (attemptRow v.delivery c.result)) := if_pos own
      have record : ((Pc.receive v slot).answers c).filter (fun a => a.deliveryId = id) =
          [attemptRow v.delivery c.result] := List.filter_cons_of_pos (decide_eq_true own)
      rw [written, record]
      exact .write holds
    · have free : hands w = none := mine.trans (if_neg own)
      have none : (Pc.commitOutcome v slot (attemptRow v.delivery c.result) outcome
          delay).slip id = none := if_neg own
      have silent : ((Pc.receive v slot).answers c).filter (fun a => a.deliveryId = id) = [] :=
        List.filter_cons_of_neg (fun same => own (of_decide_eq_true same))
      rw [none, silent, ← free, Function.update_eq_self]
      exact .stay
  | @records v slot attempt outcome delay pc' slip =>
    have counts : ((s.addAttempt attempt).commitDelivery .outcome v.delivery outcome).count id =
        s.count id := Store.count_commit_kept (kept v slot attempt outcome delay rfl)
    have rows : ((s.addAttempt attempt).commitDelivery .outcome v.delivery outcome).attemptsOf id =
        s.attemptsOf id ++ [attempt].filter (fun a => a.deliveryId = id) := List.filter_append _ _
    rw [counts, rows, slip]
    by_cases own : attempt.deliveryId = id
    · have holds : hands w = some (.written attempt) := mine.trans (if_pos own)
      have filed : [attempt].filter (fun a => a.deliveryId = id) = [attempt] :=
        List.filter_cons_of_pos (decide_eq_true own)
      rw [filed]
      exact .file holds
    · have free : hands w = none := mine.trans (if_neg own)
      have other : [attempt].filter (fun a => a.deliveryId = id) = [] :=
        List.filter_cons_of_neg (fun same => own (of_decide_eq_true same))
      rw [other, List.append_nil, ← free, Function.update_eq_self]
      exact .stay

end Worker

/-! Requests insert no attempt -/

namespace Api

theorem attempts_exec (streamShards : Nat) (source : Source) (s : Store) (c : Command) :
    (c.exec streamShards source s).db.attempts = s.db.attempts := by
  obtain ⟨_, _, _, executed⟩ := c.exec_frame streamShards source s
  rw [executed]

theorem attempts_commitRequeued (s : Store) (rows : List Delivery) :
    (commitRequeued s rows).db.attempts = s.db.attempts := by
  obtain ⟨_, _, committed⟩ := commitRequeued_frame s rows
  rw [committed]

theorem attempts_abandon (s : Store) (q : Ingest) :
    (Ingest.abandon s q).db.attempts = s.db.attempts := by
  unfold Ingest.abandon Ingest.unreserve
  split <;> rfl

theorem Ingest.step_attempts {streamShards : Nat} {ids : List Uuid} {s s' : Store} {q q' : Ingest}
    (h : q.step streamShards ids s = some (s', q')) : s'.db.attempts = s.db.attempts := by
  obtain ⟨pc, _, steps⟩ := Ingest.step_steps h
  cases steps with
  | insert =>
    unfold reserve
    split <;> rfl
  | commit =>
    unfold commitEvent unreserve
    split <;> rfl
  | rollback => exact attempts_abandon s q
  | exec => exact attempts_exec _ _ _ _
  | _ => rfl

theorem Ingest.fail_attempts {s s' : Store} {q q' : Ingest}
    (h : q.fail s = some (s', q')) : s'.db.attempts = s.db.attempts := by
  rcases (Ingest.fail_steps h).2 with ⟨_, rfl⟩ | ⟨_, rfl⟩
  · exact attempts_abandon s q
  · rfl

theorem Replay.step_attempts {streamShards : Nat} {s s' : Store} {q q' : Replay}
    (h : q.step streamShards s = some (s', q')) : s'.db.attempts = s.db.attempts := by
  unfold Replay.step at h
  split at h
  · split at h <;> cases h <;> rfl
  · split at h <;> cases h
    rfl
  · cases h
    rfl
  · split at h <;> cases h
    exact attempts_commitRequeued s _
  · cases h
    rfl
  · cases h
    rfl
  · cases h
    exact attempts_exec _ _ _ _
  · cases h

theorem Approve.step_attempts {streamShards : Nat} {clock : ℚ} {s s' : Store} {q q' : Approve}
    (h : q.step streamShards clock s = some (s', q')) : s'.db.attempts = s.db.attempts := by
  unfold Approve.step at h
  split at h
  · cases h
    rfl
  · split at h
    · cases h
      rfl
    · split at h <;> cases h <;> rfl
  · split at h
    · cases h
    · split at h <;> cases h <;> rfl
  · cases h
    rfl
  · cases h
    unfold Approve.decide
    split <;> rfl
  · split at h <;> cases h
    exact attempts_commitRequeued s _
  · cases h
    rfl
  · cases h
    rfl
  · cases h
    exact attempts_exec _ _ _ _
  · cases h

end Api

def Consumer.slip (id : Uuid) (c : Consumer) : Option (Slip DeliveryAttempt) :=
  c.current.bind (fun h => h.pc.slip id)

namespace World

variable {env : Env} {l : Label} {x y : World} {id : Uuid}

theorem goto_slip (id : Uuid) (c : Consumer) (h : Handling) (pc : Pc) :
    (Consumer.goto c h pc).slip id = pc.slip id := by
  cases pc <;> rfl

def hands (x : World) (id : Uuid) (w : Nat) : Option (Slip DeliveryAttempt) :=
  (x.workers w).slip id

/-- No request is about to reset the row. -/
def NoReplay (env : Env) (id : Uuid) (x : World) (l : Label) : Prop :=
  ∀ r ids q rows, l = .serve r ids → x.requests r = some q →
    q.job env.settings.streamShards = .selected rows → ∀ d ∈ rows, d.id ≠ id

/-- Nobody crashes or raises between the two commits of an attempt, and a count
is committed onto the row that it was computed from. -/
structure Gapless (id : Uuid) (x : World) (l : Label) : Prop where
  kept : ∀ w, l = .crash w ∨ l = .raise w → x.hands id w = none
  current : ∀ w c h v slot, l = .work w c → x.Handles w h →
    h.pc = .commitDelivering v slot →
    v.delivery.id = id → x.store.count id = v.delivery.attemptCount

theorem step_attempts (resting : ∀ w c, l ≠ .work w c) (h : World.step env l x = some y) :
    y.store.db.attempts = x.store.db.attempts := by
  cases l with
  | tick time =>
    simp only [World.step, stepTick] at h
    split at h <;> cases h
    rfl
  | createTenant t =>
    simp only [World.step, stepCreateTenant] at h
    split at h <;> cases h
    rfl
  | createEndpoint e =>
    simp only [World.step, stepCreateEndpoint] at h
    split at h <;> cases h
    rfl
  | patchEndpoint endpointId url status eventTypes =>
    cases h
    rfl
  | proposeAction a =>
    simp only [World.step, stepProposeAction] at h
    split at h <;> cases h
    rfl
  | resetBreaker tenantId endpointId =>
    simp only [World.step, stepResetBreaker] at h
    split at h <;> cases h
    rfl
  | read w =>
    simp only [World.step, stepRead] at h
    split at h
    · split at h <;> cases h
      rfl
    · cases h
  | claim w ids =>
    simp only [World.step, stepClaim] at h
    split at h <;> cases h
    rfl
  | take w =>
    simp only [World.step, stepBegin] at h
    split at h
    · cases h
    · split at h <;> cases h
      rfl
  | work w c => exact absurd rfl (resting w c)
  | raise w =>
    simp only [World.step, stepRaise] at h
    split at h
    · cases h
    · split at h
      · cases h
      · split at h <;> cases h <;> rfl
  | crash w =>
    cases h
    rfl
  | schedule now limit =>
    cases h
    rfl
  | arrive r call =>
    simp only [World.step, stepArrive] at h
    split at h <;> cases h
    rfl
  | serve r ids =>
    simp only [World.step, stepServe] at h
    split at h
    · cases h
    · split at h <;> cases h
      rename_i next
      exact Ingest.step_attempts next
    · split at h <;> cases h
      rename_i next
      exact Replay.step_attempts next
    · split at h <;> cases h
      rename_i next
      exact Approve.step_attempts next
  | fail r =>
    simp only [World.step, stepFail] at h
    split at h
    · split at h <;> cases h
      rename_i next
      exact Ingest.fail_attempts next
    · cases h
      rfl
    · cases h
      rfl
    · cases h

theorem hands_update {w : Nat} {c : Consumer}
    (workers : y.workers = Function.update x.workers w c) :
    y.hands id = Function.update (x.hands id) w (c.slip id) := by
  funext w'
  by_cases same : w' = w
  · subst same
    simp only [hands, workers, Function.update_self]
  · simp only [hands, workers, Function.update_of_ne same]

/-- Only awaits move numbers, as long as nobody lets go of one. -/
theorem Change.hands_kept (change : Change env x y l)
    (kept : ∀ w, l = .crash w ∨ l = .raise w → x.hands id w = none)
    (resting : ∀ w c, l ≠ .work w c) : y.hands id = x.hands id := by
  have same : ∀ {w : Nat} {c : Consumer}, y.workers = Function.update x.workers w c →
      c.slip id = x.hands id w → y.hands id = x.hands id := by
    intro w c workers slip
    rw [hands_update workers, slip, Function.update_eq_self]
  cases change with
  | admin _ _ _ _ _ workers _ | arrive _ _ workers _ _ | schedule _ _ workers _
  | serve _ _ _ workers _ | fail _ _ _ _ workers _ =>
    funext w
    simp only [World.hands, workers]
  | read _ _ _ _ workers _ | claim _ _ _ _ _ _ workers _ => exact same workers rfl
  | take _ _ free _ workers _ =>
    refine same workers ?_
    simp only [World.hands, Consumer.slip, free]
    rfl
  | work => exact absurd rfl (resting _ _)
  | @raise w h _ _ _ workers _ =>
    refine same workers ?_
    rw [goto_slip, Pc.slip_onRaise, kept w (Or.inr rfl)]
  | @drop _ w c label _ _ held _ workers _ =>
    refine same workers ?_
    have free : c.current = none := by
      cases current : c.current with
      | none => rfl
      | some h => simp [Consumer.held, current] at held
    rw [Consumer.slip, free, kept w label]
    rfl

/-- Only awaits and replays change the count. -/
theorem Change.count_kept (change : Change env x y l) (inv : Consistent env x)
    (noReplay : NoReplay env id x l) (resting : ∀ w c, l ≠ .work w c) :
    y.store.count id = x.store.count id := by
  have quiet : y.core.deliveries = x.core.deliveries → y.store.count id = x.store.count id := by
    intro deliveries
    exact Store.count_of_deliveries deliveries id
  cases change with
  | admin _ _ _ _ core | arrive _ core | read _ _ _ core | claim _ _ _ _ _ core
  | take _ _ _ core | raise _ _ core | drop _ _ core | schedule _ core | fail _ _ core =>
    exact quiet (congrArg Core.deliveries core :)
  | work => exact absurd rfl (resting _ _)
  | @serve r ids q q' _ running move _ requests =>
    have sound := inv.jobs r q running
    have fansOut := inv.fansOut r q running
    generalize job : Request.job _ q = j at move sound fansOut
    generalize core : y.core = c' at move
    generalize Request.job _ q' = j' at move
    cases move with
    | @commit event endpoints deliveries =>
      obtain ⟨drawn, length, rfl⟩ := fansOut
      change (y.core.delivery id).elim 0 _ = (x.core.delivery id).elim 0 _
      rw [core]
      cases old : x.core.delivery id with
      | some row =>
        have still : (x.core.commitEvent event
            (Ingest.newDeliveries event.id drawn endpoints)).delivery id = some row :=
          Table.get_append_of_some _ old
        rw [still]
      | none =>
        have added : (x.core.commitEvent event
            (Ingest.newDeliveries event.id drawn endpoints)).delivery id =
              Table.get Delivery.id (Ingest.newDeliveries event.id drawn endpoints) id := by
          refine (Table.get_append _).trans ?_
          rw [show Table.get Delivery.id _ id = none from old, Option.none_or]
        rw [added]
        cases found : Table.get Delivery.id (Ingest.newDeliveries event.id drawn endpoints) id with
        | none => rfl
        | some row => exact Ingest.attemptCount_newDeliveries (Table.get_mem found)
    | @requeue rows source commands issued =>
      change (y.core.delivery id).elim 0 _ = (x.core.delivery id).elim 0 _
      rw [core]
      rcases Core.delivery_commitRequeued (c := x.core) id (fun d h => (sound d h).2) with
        same | ⟨⟨d, listed, key⟩, _⟩
      · rw [same]
      · exact absurd key (noReplay r ids q rows rfl running job d listed)
    | @exec source command rest =>
      cases command <;> exact quiet (congrArg Core.deliveries core :)
    | _ => exact quiet (congrArg Core.deliveries core :)

/-- The record of the reply that a step receives. -/
def answers (x : World) : Label → List DeliveryAttempt
  | .work w c => (x.workers w).current.elim [] (fun h => h.pc.answers c)
  | _ => []

theorem answers_of_resting (resting : ∀ w c, l ≠ .work w c) : x.answers l = [] := by
  cases l with
  | work w c => exact absurd rfl (resting w c)
  | _ => rfl

end World

/-- The pipeline with the records of all replies, newest first. -/
structure Audit where
  world : World
  answered : List DeliveryAttempt := []

namespace Audit

open World

variable {env : Env} {l : Label} {a b : Audit} {id : Uuid}

def step (env : Env) (l : Label) (a : Audit) : Option Audit :=
  (World.step env l a.world).map (fun y => ⟨y, a.world.answers l ++ a.answered⟩)

def answeredOf (a : Audit) (id : Uuid) : List DeliveryAttempt :=
  a.answered.filter (fun r => r.deliveryId = id)

def register (a : Audit) (id : Uuid) : Register Nat DeliveryAttempt :=
  ⟨a.world.store.count id, a.world.hands id, a.answeredOf id, a.world.store.attemptsOf id⟩

theorem step_register (inv : Consistent env a.world) (timed : OutcomesTimed a.world)
    (noReplay : NoReplay env id a.world l) (gapless : Gapless id a.world l)
    (stepped : step env l a = some b) :
    Register.Step DeliveryAttempt.attemptNumber (a.register id) (b.register id) := by
  obtain ⟨y, next, rfl⟩ := Option.map_eq_some_iff.mp stepped
  have change := step_change next
  by_cases working : ∃ w c, l = .work w c
  · obtain ⟨w, c, rfl⟩ := working
    cases change with
    | admin label => exact label.elim
    | drop label => rcases label with same | same <;> cases same
    | @work _ _ h pc _ handles stepped _ workers _ =>
      have mine : a.world.hands id w = h.pc.slip id := by
        unfold World.hands Consumer.slip
        rw [handles]
        rfl
      have answers : a.world.answers (.work w c) = h.pc.answers c := by
        simp only [World.answers]
        rw [handles]
        rfl
      have kept : ∀ v slot attempt outcome delay,
          h.pc = .commitOutcome v slot attempt outcome delay →
          outcome.attemptCount = v.delivery.attemptCount := by
        intro v slot attempt outcome delay pc
        obtain ⟨time, _, resolved⟩ := timed w h v.delivery v.endpoint outcome delay handles
          (by rw [pc]; rfl)
        exact resolved.keeps.2.2.2
      have books := (Pc.step_books stepped).step (a.answeredOf id) mine
        (fun v slot pc own => gapless.current w c h v slot rfl handles pc own) kept
      unfold register answeredOf
      rw [hands_update workers, goto_slip, answers, List.filter_append]
      exact books
  · have resting : ∀ w c, l ≠ .work w c := fun w c same => working ⟨w, c, same⟩
    unfold register answeredOf
    rw [change.count_kept inv noReplay resting, change.hands_kept gapless.kept resting,
      Store.attemptsOf_of_attempts (step_attempts resting next), answers_of_resting resting]
    exact .stay

end Audit

end Relay
