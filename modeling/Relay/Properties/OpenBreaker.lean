import Relay.Pipeline.Slots
import Relay.Pipeline.UnderWay
import Relay.Properties.HalfOpenProbe

/-!
# An open breaker sheds the traffic of its endpoint

For ten minutes from the moment a breaker opens, and as long as nothing closes
it, only the workers that were already admitted attempt deliveries of the
endpoint, and each of them once.
-/

namespace Relay

open CircuitBreaker Enqueue RetryQueue Worker Api Transition

/-- Open, with the next probe due ten minutes after this time. -/
structure CircuitBreaker.Breaker.Shut (b : Breaker) (probedAt : ℚ) : Prop where
  current : b.current = .opened
  lastProbeAt : b.lastProbeAt = some probedAt

namespace CircuitBreaker

variable {b : Breaker} {probedAt now : ℚ}

theorem Breaker.Shut.denies (shut : b.Shut probedAt)
    (early : now < probedAt + halfOpenProbeIntervalSeconds) :
    (allowRequestLua b now).1 = b ∧ (allowRequestLua b now).2.1 = .deny := by
  cases allowRequestLua_allows b now with
  | allowed closed => exact nomatch shut.current.symm.trans closed
  | denied _ same answer => exact ⟨same, answer⟩
  | probes _ due =>
    rw [shut.lastProbeAt, Option.getD_some] at due
    exact absurd due (by linarith)

theorem Breaker.Shut.fails (shut : b.Shut probedAt) (clock : ℚ) (member : Uuid) :
    (recordOutcomeLua b clock now false member).1.Shut probedAt := by
  cases recordOutcomeLua_records b clock now false member with
  | keeps current _ _ lastProbeAt =>
    exact ⟨current.trans shut.current, lastProbeAt.trans shut.lastProbeAt⟩
  | opens _ before => exact absurd shut.current before
  | closes succeeded => cases succeeded

end CircuitBreaker

/-- Past the breaker and before the attempt. -/
def Worker.Pc.admitted : Pc → Option Locals
  | .loadTenant v | .takeToken v _ | .loadTenantAgain v | .acquireSlot v _ | .reloadDelivery v _
  | .reloadEndpoint v _ | .loadEvent v _ | .commitDelivering v _ | .send v _ => some v
  | _ => none

section Step

variable {env : Env} {clock probedAt : ℚ} {c : Choice} {shard messageId : Nat}
  {id endpointId : Uuid} {s s' : Store} {pc pc' : Pc} {v v' : Locals}

theorem Worker.Pc.admitted_unlock (acks : Bool) : (Pc.unlock v acks).admitted = none := by
  unfold Pc.unlock
  split <;> rfl

theorem Worker.Pc.admitted_afterOutcome (slot : Uuid) :
    (Pc.afterOutcome v slot).admitted = none := by
  unfold Pc.afterOutcome
  split <;> rfl

theorem Worker.Pc.session_admitted (on : pc.admitted = some v) :
    pc.session = .gated v.delivery v.endpoint ∨ pc.session = .sending v.delivery v.endpoint := by
  cases pc <;> cases on <;> first | exact Or.inl rfl | exact Or.inr rfl

/-- The way past the breaker begins with its leave. -/
theorem Worker.Pc.step_admitted (h : pc.step env clock c shard messageId id s = some (s', pc'))
    (on : pc'.admitted = some v') :
    (∃ v, pc.admitted = some v ∧ v.endpoint = v'.endpoint) ∨
      ∃ v, pc = .allowRequest v ∧ v.endpoint = v'.endpoint ∧
        (s.allowRequest v.endpoint.id v.now).2.1 ≠ .deny := by
  cases pc with
  | allowRequest v =>
    right
    simp only [Pc.step] at h
    split at h
    · cases h
      cases on
    · rename_i decision _ leave answer
      cases h
      cases on
      refine ⟨v, rfl, rfl, fun denied => ?_⟩
      rw [answer] at denied
      exact leave denied
  | deferGated v dueAt =>
    cases h
    rw [admitted_unlock] at on
    cases on
  | releaseSlot v slot acks =>
    cases h
    rw [admitted_unlock] at on
    cases on
  | recordOutcome v slot time =>
    simp only [Pc.step] at h
    split at h <;> cases h
    · cases on
    · rw [admitted_afterOutcome] at on
      cases on
  | publishTrigger v slot event =>
    cases h
    rw [admitted_afterOutcome] at on
    cases on
  | loadTenant v | takeToken v _ | loadTenantAgain v | acquireSlot v _ | reloadDelivery v _
  | reloadEndpoint v _ | loadEvent v _ | commitDelivering v _ | send v _ =>
    left
    refine ⟨v, rfl, ?_⟩
    simp only [Pc.step] at h
    repeat' split at h
    all_goals cases h <;> cases on <;> rfl
  | _ =>
    simp only [Pc.step] at h
    repeat' split at h
    all_goals cases h <;> cases on

/-- Nobody gets by, and late failures change nothing. -/
theorem Worker.Pc.step_shut (h : pc.step env clock c shard messageId id s = some (s', pc'))
    (shut : (s.breakers endpointId).Shut probedAt)
    (early : ∀ v, pc = .allowRequest v → v.endpoint.id = endpointId →
      v.now < probedAt + halfOpenProbeIntervalSeconds)
    (fails : ∀ v slot time, pc = .recordOutcome v slot time → v.endpoint.id = endpointId →
      v.delivery.status ≠ .delivered) : (s'.breakers endpointId).Shut probedAt := by
  rcases Pc.step_breakers h with same | ⟨v, rfl⟩ | ⟨v, slot, time, rfl⟩
  · exact same ▸ shut
  · have breakers : s' = (s.allowRequest v.endpoint.id v.now).1 := by
      simp only [Pc.step] at h
      split at h
      all_goals
        rename_i answer
        cases h
        rw [answer]
    subst breakers
    by_cases mine : v.endpoint.id = endpointId
    · subst mine
      simp only [Store.allowRequest, Function.update_self]
      rw [(shut.denies (early v rfl rfl)).1]
      exact shut
    · simpa only [Store.allowRequest, Function.update_of_ne (Ne.symm mine)] using shut
  · have recorded : s' = (s.recordOutcome v.endpoint.id (decide (v.delivery.status = .delivered))
        clock time c.token).1 := by
      simp only [Pc.step] at h
      split at h <;> cases h <;> rfl
    by_cases mine : v.endpoint.id = endpointId
    · subst mine
      have failed := decide_eq_false (fails v slot time rfl rfl)
      rw [recorded, failed]
      simp only [Store.recordOutcome, Function.update_self]
      exact shut.fails clock c.token
    · rw [(Pc.step_recordOutcome h).2 endpointId (Ne.symm mine)]
      exact shut

end Step

/-- The request is about to reset the breaker of this endpoint. -/
def Request.resets : Request → Option Uuid
  | .replay { body, pc := .reset _ _, .. } => some body.endpointId
  | .approve { pc := .reset _ e _, .. } => some e.id
  | _ => none

section Requests

variable {streamShards : Nat} {clock : ℚ} {s s' : Store} {endpointId : Uuid}

theorem Api.Replay.step_resets {r r' : Replay}
    (h : Replay.step streamShards s r = some (s', r'))
    (other : (Request.replay r).resets ≠ some endpointId) :
    s'.breakers endpointId = s.breakers endpointId := by
  obtain ⟨tenantId, body, pc⟩ := r
  cases pc with
  | reset ordering rows =>
    cases h
    have ne : endpointId ≠ body.endpointId := fun same => other (congrArg some same.symm)
    simp only [Store.resetBreaker, Function.update_of_ne ne]
  | requeue replayed commands =>
    cases commands with
    | nil =>
      cases h
      rfl
    | cons command rest =>
      cases h
      exact congrFun (Command.breakers_exec _ _ _ _) _
  | _ =>
    simp only [Replay.step] at h
    repeat' split at h
    all_goals
      cases h <;> first
        | rfl
        | exact congrFun (breakers_commitRequeued _ _) _

theorem Api.Approve.step_resets {r r' : Approve}
    (h : Approve.step streamShards clock s r = some (s', r'))
    (other : (Request.approve r).resets ≠ some endpointId) :
    s'.breakers endpointId = s.breakers endpointId := by
  obtain ⟨tenantId, actionId, pc⟩ := r
  cases pc with
  | reset a e rows =>
    cases h
    have ne : endpointId ≠ e.id := fun same => other (congrArg some same.symm)
    simp only [Store.resetBreaker, Function.update_of_ne ne]
  | requeue a commands =>
    cases commands with
    | nil =>
      cases h
      rfl
    | cons command rest =>
      cases h
      exact congrFun (Command.breakers_exec _ _ _ _) _
  | _ =>
    simp only [Approve.step] at h
    repeat' split at h
    all_goals
      cases h <;> first
        | rfl
        | exact congrFun (breakers_commitRequeued _ _) _

end Requests

namespace World

variable {env : Env} {l : Label} {x y : World} {endpointId : Uuid} {probedAt : ℚ}

/-- The label is a reset of the endpoint's breaker: by hand, or at the end of a
replay or an approval. -/
def Resets (x : World) (endpointId : Uuid) (l : Label) : Prop :=
  (∃ tenantId, l = .resetBreaker tenantId endpointId) ∨
    ∃ r ids q, l = .serve r ids ∧ x.requests r = some q ∧ q.resets = some endpointId

/-- The label records a success for the endpoint. -/
def Recovers (x : World) (endpointId : Uuid) (l : Label) : Prop :=
  ∃ w c h v slot time, l = .work w c ∧ x.Handles w h ∧ h.pc = .recordOutcome v slot time ∧
    v.endpoint.id = endpointId ∧ v.delivery.status = .delivered

/-- Ten minutes are not over, and nothing closes the breaker. -/
structure Holding (endpointId : Uuid) (probedAt : ℚ) (x : World) (l : Label) : Prop where
  early : x.clock < probedAt + halfOpenProbeIntervalSeconds
  unreset : ¬ x.Resets endpointId l
  failing : ¬ x.Recovers endpointId l

/-- The worker was let by and may still attempt a delivery of the endpoint. -/
def Admitted (x : World) (endpointId : Uuid) (w : Nat) : Prop :=
  ∃ h v, x.Handles w h ∧ h.pc.admitted = some v ∧ v.endpoint.id = endpointId

/-- Apart from workers only a reset writes the breaker. -/
theorem step_unreset (next : World.step env l x = some y) (other : ∀ w c, l ≠ .work w c)
    (unreset : ¬ x.Resets endpointId l) :
    y.store.breakers endpointId = x.store.breakers endpointId := by
  cases l with
  | work w c => exact absurd rfl (other w c)
  | serve r ids =>
    have kept : ∀ q, x.requests r = some q → q.resets ≠ some endpointId :=
      fun q running resets =>
      unreset (Or.inr ⟨r, ids, q, rfl, running, resets⟩)
    simp only [World.step, stepServe] at next
    repeat' split at next
    all_goals cases next
    · rename_i step
      exact congrFun (Ingest.breakers_step step) endpointId
    · rename_i running _ _ _ step
      exact Replay.step_resets step (kept _ running)
    · rename_i running _ _ _ step
      exact Approve.step_resets step (kept _ running)
  | fail r =>
    simp only [World.step, stepFail] at next
    repeat' split at next
    all_goals cases next
    · rename_i failed
      simp only [Ingest.fail] at failed
      split at failed <;> cases failed <;> rfl
    · rfl
    · rfl
  | resetBreaker tenantId reset =>
    have ne : endpointId ≠ reset := fun same => unreset (Or.inl ⟨tenantId, same ▸ rfl⟩)
    simp only [World.step, stepResetBreaker] at next
    split at next <;> cases next
    exact Function.update_of_ne ne _ _
  | tick | createTenant | createEndpoint | patchEndpoint | proposeAction | read | claim | take
  | raise | crash | schedule | arrive =>
    simp only [World.step, stepTick, stepCreateTenant, stepCreateEndpoint, stepPatchEndpoint,
      stepProposeAction, stepRead, stepClaim, stepBegin, stepRaise, stepCrash, stepSchedule,
      stepArrive] at next
    repeat' split at next
    all_goals cases next <;> rfl

/-- Who asks the breaker began its handling before now. -/
theorem Holding.early_now (holding : Holding endpointId probedAt x l) (timed : Timed x) {w : Nat}
    {h : Handling} {v : Locals} (handles : x.Handles w h) (asks : h.pc = .allowRequest v) :
    v.now < probedAt + halfOpenProbeIntervalSeconds := by
  have began : v.now = h.startedAt := timed.began w h v.now handles (by rw [asks]; rfl)
  exact lt_of_le_of_lt (began ▸ timed.started w h handles) holding.early

theorem step_shut (timed : Timed x) (holding : Holding endpointId probedAt x l)
    (shut : (x.store.breakers endpointId).Shut probedAt) (next : World.step env l x = some y) :
    (y.store.breakers endpointId).Shut probedAt := by
  by_cases working : ∃ w c, l = .work w c
  · obtain ⟨w, c, rfl⟩ := working
    cases step_change next with
    | admin label => exact label.elim
    | drop label => rcases label with same | same <;> cases same
    | @work _ _ h pc _ handles step _ _ _ =>
      refine Pc.step_shut step shut (fun v asks _ => holding.early_now timed handles asks) ?_
      intro v slot time records mine succeeded
      exact holding.failing ⟨w, c, h, v, slot, time, rfl, handles, records, mine, succeeded⟩
  · rw [step_unreset next (fun w c same => working ⟨w, c, same⟩) holding.unreset]
    exact shut

/-- While it holds, no one is let by. -/
theorem Admitted.before (timed : Timed x) (holding : Holding endpointId probedAt x l)
    (shut : (x.store.breakers endpointId).Shut probedAt) (change : Change env x y l) {w : Nat}
    (admitted : y.Admitted endpointId w) : x.Admitted endpointId w := by
  obtain ⟨h, v, handles, on, rfl⟩ := admitted
  cases change.arises handles with
  | same old _ => exact ⟨h, v, old, on, rfl⟩
  | begun _ _ begun =>
    rw [begun] at on
    cases on
  | raised _ _ leaving _ =>
    rcases Pc.session_admitted on with same | same <;> exact nomatch same.symm.trans leaving
  | @moved _ old _ handled step _ _ =>
    rcases Pc.step_admitted step on with ⟨v', before, same⟩ | ⟨v', asks, same, leave⟩
    · exact ⟨old, v', handled, before, congrArg Endpoint.id same⟩
    · have early := holding.early_now timed handled asks
      rw [← same] at shut
      exact absurd (shut.denies early).2 leave

/-- Since the breaker opened, the attempts made and the workers still admitted are
no more than those at the start. -/
structure Shed (endpointId : Uuid) (probedAt : ℚ) (ws : Finset Nat) (bound : Nat) (x : World) :
    Prop where
  timed : Timed x
  shut : (x.store.breakers endpointId).Shut probedAt
  admitted : ∀ w, x.Admitted endpointId w → w ∈ ws
  left : Limited (fun x => x.Admitted endpointId) (fun x => x.attemptsTo endpointId) bound x

theorem Shed.step {ws : Finset Nat} {bound : Nat} (inv : Consistent env x)
    (shed : Shed endpointId probedAt ws bound x) (holding : Holding endpointId probedAt x l)
    (next : World.step env l x = some y) : Shed endpointId probedAt ws bound y := by
  obtain ⟨timed, shut, admitted, left⟩ := shed
  have change := step_change next
  have before : ∀ w, y.Admitted endpointId w → x.Admitted endpointId w :=
    fun w on => on.before timed holding shut change
  refine ⟨timed.step change, step_shut timed holding shut next,
    fun w on => admitted w (before w on), left.step_attempts inv change before ?_⟩
  rintro w c label ⟨h, d, e, handles, sends, mine⟩
  constructor
  · cases pc : h.pc with
    | send v slot =>
      rw [pc] at sends
      cases sends
      exact ⟨h, v, handles, by rw [pc]; rfl, mine⟩
    | _ =>
      rw [pc] at sends
      cases sends
  · rintro ⟨h', v', handles', on, _⟩
    have past := not_handles_sent change label handles sends handles'
    rcases Pc.session_admitted on with same | same <;> exact nomatch same.symm.trans past

/-- From any reachable state with an open breaker, for ten minutes after it was last
probed or opened, and as long as nothing resets it and no success is recorded, the
breaker stays open, no further worker is let by, and the deliveries of the endpoint
are attempted at most once by each of the workers that had been. -/
theorem open_breaker_sheds {guard : World → Label → Prop} {shardOf : Nat → Nat}
    {ws : Finset Nat} (start : Run (World.step env) guard (initial shardOf) x)
    (shut : (x.store.breakers endpointId).Shut probedAt)
    (admitted : ∀ w, x.Admitted endpointId w → w ∈ ws)
    (run : Run (World.step env) (Holding endpointId probedAt) x y) :
    (y.store.breakers endpointId).current = .opened ∧
      (∀ w, y.Admitted endpointId w → w ∈ ws) ∧
      y.attemptsTo endpointId ≤ x.attemptsTo endpointId + ws.card := by
  have timed : Timed x := start.invariant (I := Timed) (timed_initial shardOf)
    (fun timed _ next => timed.step (step_change next))
  have shed : Shed endpointId probedAt ws (x.attemptsTo endpointId + ws.card) y :=
    run.invariant_under (I := Consistent env) (consistent_run start)
      ⟨timed, shut, admitted, ws, admitted, Nat.le_refl _⟩
      (fun inv _ next => inv.step (step_change next))
      (fun inv shed holding next => shed.step inv holding next)
  exact ⟨shed.shut.current, shed.admitted, shed.left.attempts_le⟩

/-! A worker that was let by before the tenth failure in a row -/

/-- One worker is about to send when another one opens the breaker. -/
def letBy : List Label :=
  [.createTenant { id := 2 }, .createEndpoint till] ++ (List.range 9).flatMap failure ++
    ingest 9 till 19 39 ++ ingest 10 till 20 40 ++
    [.tick 10, .read 0, .take 0, .read 1, .take 1] ++ works 1 11 { failing with token := 90 } ++
    works 0 20 { failing with token := 60 }

/-- It sends; the next delivery is put off. -/
def putOff : List Label :=
  works 1 9 { failing with token := 90 } ++ ingest 11 till 21 41 ++ [.read 0, .take 0] ++
    works 0 7 failing

def holds (endpointId : Uuid) (probedAt : ℚ) (x : World) (l : Label) : Bool :=
  decide (x.clock < probedAt + halfOpenProbeIntervalSeconds) &&
    match l with
    | .resetBreaker _ reset => decide (reset ≠ endpointId)
    | .serve r _ => (x.requests r).all (fun q => decide (q.resets ≠ some endpointId))
    | .work w _ => (x.workers w).current.all (fun h =>
        match h.pc with
        | .recordOutcome v _ _ => decide (v.delivery.status ≠ .delivered)
        | _ => true)
    | _ => true

theorem holds_sound (checked : holds endpointId probedAt x l = true) :
    Holding endpointId probedAt x l := by
  obtain ⟨early, kept⟩ := Bool.and_eq_true_iff.mp checked
  refine ⟨of_decide_eq_true early, ?_, ?_⟩
  · rintro (⟨tenantId, rfl⟩ | ⟨r, ids, q, rfl, running, resets⟩)
    · exact of_decide_eq_true kept rfl
    simp only [running, Option.all_some] at kept
    exact of_decide_eq_true kept resets
  · rintro ⟨w, c, h, v, slot, time, rfl, handles, records, _, succeeded⟩
    have current : (x.workers w).current = some h := handles
    simp only [current, Option.all_some, records] at kept
    exact of_decide_eq_true kept succeeded

theorem open_breaker_sheds_late : ∃ x y : World,
    Run (World.step headerless) (fun _ _ => True) (initial (fun _ => 3)) x ∧
      Run (World.step headerless) (Holding 1 10) x y ∧ x.attemptsTo 1 = 10 ∧
      y.attemptsTo 1 = 11 ∧ (y.store.breakers 1).current = .opened ∧
      y.attemptsTo 1 ≤ x.attemptsTo 1 + 1 := by
  have evaluates : (exec (World.step headerless) (fun _ _ => true) letBy
      (initial (fun _ => 3))).elim false (fun x =>
        decide (x.attemptsTo 1 = 10 ∧ (x.store.breakers 1).current = .opened ∧
          (x.store.breakers 1).lastProbeAt = some 10 ∧ (x.workers 0).current.isNone = true) &&
        (exec (World.step headerless) (holds 1 10) putOff x).elim false
          (fun y => decide (y.attemptsTo 1 = 11))) = true := by
    decide +kernel
  obtain ⟨x, executed, passes⟩ := reached evaluates
  obtain ⟨here, later⟩ := Bool.and_eq_true_iff.mp passes
  obtain ⟨ten, current, lastProbeAt, free⟩ := of_decide_eq_true here
  obtain ⟨y, executed', passes'⟩ := reached later
  have start : Run (World.step headerless) (fun _ _ => True) (initial (fun _ => 3)) x ∧
      Untouched 2 12 x :=
    schedule_run (untouched_initial 2 12 _) (by decide +kernel) (fun _ _ _ => trivial) executed
  have run : Run (World.step headerless) (Holding 1 10) x y :=
    run_of_exec (fun _ _ => holds_sound) executed'
  have admitted : ∀ w, x.Admitted 1 w → w ∈ ({1} : Finset Nat) := by
    rintro w ⟨h, _, handles, _⟩
    have inside := start.2.handles handles
    have other : w ≠ 0 := by
      rintro rfl
      rw [show (x.workers 0).current = some h from handles] at free
      cases free
    exact Finset.mem_singleton.mpr (by omega)
  have sheds := open_breaker_sheds start.1 ⟨current, lastProbeAt⟩ admitted run
  exact ⟨x, y, start.1, run, ten, of_decide_eq_true passes', sheds.1, sheds.2.2⟩

end World

end Relay
