import Relay.Pipeline.Change
import Relay.Pipeline.Schedule

/-!
# Does a half-open breaker always have a probe in flight?

Permission to probe is taken by `allow_request` and given back by
`record_outcome`. In between lie the rate limit and the in-flight cap, and a
worker that one of them refuses leaves without recording an outcome.
-/

namespace Relay

open CircuitBreaker Enqueue RetryQueue Worker Api Transition

/-- Between `allow_request` and the end of `deliver_with_gates`. -/
def Worker.Pc.between : Pc → Option Locals
  | .getState v | .disable v | .loadTenant v | .takeToken v _ | .loadTenantAgain v
  | .acquireSlot v _ | .deferGated v _ | .reloadDelivery v _ | .reloadEndpoint v _
  | .loadEvent v _ | .commitDelivering v _ | .send v _ | .receive v _ | .commitOutcome v _ _ _ _
  | .scheduleRetry v _ _ | .refresh v _ | .recordOutcome v _ _ | .publishTrigger v _ _
  | .popHead v _ | .releaseSlot v _ _ | .releaseLock v _ _ => some v
  | _ => none

/-- A granted probe of the endpoint whose outcome is still to be recorded. -/
def Worker.Pc.Probing (endpointId : Uuid) : Pc → Prop
  | .loadTenant v | .takeToken v _ | .loadTenantAgain v | .acquireSlot v _ | .reloadDelivery v _
  | .reloadEndpoint v _ | .loadEvent v _ | .commitDelivering v _ | .send v _ | .receive v _
  | .commitOutcome v _ _ _ _ | .scheduleRetry v _ _ | .refresh v _ | .recordOutcome v _ _ =>
    v.endpoint.id = endpointId ∧ v.decision = some .probe
  | _ => False

theorem Worker.Pc.Probing.between {endpointId : Uuid} {pc : Pc} (probing : pc.Probing endpointId) :
    ∃ v, pc.between = some v ∧ v.endpoint.id = endpointId := by
  cases pc
  all_goals
    first
      | exact probing.elim
      | exact ⟨_, rfl, probing.1⟩

/-- The rate limit and the cap grant what a probe asks for. -/
def Worker.Pc.Granted (s : Store) (clock : ℚ) (c : Choice) : Pc → Prop
  | .takeToken v rate => v.decision = some .probe →
      (s.takeToken v.endpoint.tenantId rate clock v.now).2 = true
  | .acquireSlot v cap => v.decision = some .probe →
      (s.acquireSlot v.endpoint.tenantId cap clock v.now c.token).2 = true
  | _ => True

section Step

variable {env : Env} {clock : ℚ} {c : Choice} {shard messageId : Nat} {id endpointId : Uuid}
  {s s' : Store} {pc pc' : Pc}

/-- Only the two scripts write breakers. -/
theorem Worker.Pc.step_breakers (h : pc.step env clock c shard messageId id s = some (s', pc')) :
    s'.breakers = s.breakers ∨ (∃ v, pc = .allowRequest v) ∨
      ∃ v slot time, pc = .recordOutcome v slot time := by
  cases pc with
  | allowRequest v => exact Or.inr (Or.inl ⟨v, rfl⟩)
  | recordOutcome v slot time => exact Or.inr (Or.inr ⟨v, slot, time, rfl⟩)
  | acquireLock v =>
    left
    simp only [Pc.step, Store.acquireLock] at h
    split at h
    · cases h
      rfl
    · rename_i locked acquired
      split at acquired <;> cases acquired
      cases h
      rfl
  | releaseNotHead v | releaseLock v token acks =>
    left
    simp only [Pc.step, Store.releaseLock] at h
    cases h
    repeat' split
    all_goals rfl
  | takeToken v rate =>
    left
    simp only [Pc.step] at h
    split at h
    all_goals
      rename_i answer
      cases h
      exact (congrArg (fun a => a.1.breakers) answer).symm
  | acquireSlot v cap =>
    left
    simp only [Pc.step] at h
    split at h
    all_goals
      rename_i answer
      cases h
      exact (congrArg (fun a => a.1.breakers) answer).symm
  | _ =>
    left
    simp only [Pc.step] at h
    repeat' split at h
    all_goals cases h <;> rfl

theorem Worker.Pc.step_allowRequest {v : Locals}
    (h : Pc.step env clock c shard messageId id s (.allowRequest v) = some (s', pc'))
    (after : (s'.breakers endpointId).current = .halfOpen) :
    (s.breakers endpointId).current = .halfOpen ∨ pc'.Probing endpointId := by
  have breaker : s' = (s.allowRequest v.endpoint.id v.now).1 ∧
      ((s.allowRequest v.endpoint.id v.now).2.1 = .probe →
        pc' = .loadTenant { v with decision := some .probe }) := by
    simp only [Pc.step] at h
    split at h
    · rename_i answer
      cases h
      exact ⟨by rw [answer], fun probe => by rw [answer] at probe; cases probe⟩
    · rename_i decision _ _ answer
      cases h
      refine ⟨by rw [answer], fun probe => ?_⟩
      rw [answer] at probe
      simp only at probe
      rw [probe]
  obtain ⟨rfl, probes⟩ := breaker
  by_cases mine : endpointId = v.endpoint.id
  · subst mine
    simp only [Store.allowRequest, Function.update_self] at after probes
    rcases allowRequestLua_halfOpen _ _ after with before | probe
    · exact Or.inl before
    · rw [probes probe]
      exact Or.inr ⟨rfl, rfl⟩
  · simp only [Store.allowRequest, Function.update_of_ne mine] at after
    exact Or.inl after

theorem Worker.Pc.step_recordOutcome {v : Locals} {slot : Uuid} {time : ℚ}
    (h : Pc.step env clock c shard messageId id s (.recordOutcome v slot time) = some (s', pc')) :
    (s'.breakers v.endpoint.id).current ≠ .halfOpen ∧
      ∀ endpointId, endpointId ≠ v.endpoint.id →
        s'.breakers endpointId = s.breakers endpointId := by
  have breaker : s' = (s.recordOutcome v.endpoint.id (decide (v.delivery.status = .delivered))
      clock time c.token).1 := by
    simp only [Pc.step] at h
    split at h <;> cases h <;> rfl
  subst breaker
  constructor
  · simp only [Store.recordOutcome, Function.update_self]
    exact recordOutcomeLua_ne_halfOpen _ _ _ _ _
  · intro endpointId ne
    simp only [Store.recordOutcome, Function.update_of_ne ne]

/-- A breaker becomes half open only by a granted probe. -/
theorem Worker.Pc.step_halfOpen (h : pc.step env clock c shard messageId id s = some (s', pc'))
    (after : (s'.breakers endpointId).current = .halfOpen) :
    (s.breakers endpointId).current = .halfOpen ∨ pc'.Probing endpointId := by
  rcases Pc.step_breakers h with same | ⟨v, rfl⟩ | ⟨v, slot, time, rfl⟩
  · exact Or.inl (same ▸ after)
  · exact Pc.step_allowRequest h after
  · have recorded := Pc.step_recordOutcome h
    by_cases mine : endpointId = v.endpoint.id
    · exact absurd (mine ▸ after) recorded.1
    · exact Or.inl (recorded.2 endpointId mine ▸ after)

/-- A probe that is granted what it asks for goes on until its outcome is recorded. -/
theorem Worker.Pc.step_probing (h : pc.step env clock c shard messageId id s = some (s', pc'))
    (granted : pc.Granted s clock c) (probing : pc.Probing endpointId) :
    pc'.Probing endpointId ∨ (s'.breakers endpointId).current ≠ .halfOpen := by
  cases pc with
  | recordOutcome v slot time =>
    right
    rw [← probing.1]
    exact (Pc.step_recordOutcome h).1
  | takeToken v rate =>
    simp only [Pc.step] at h
    split at h
    · cases h
      exact Or.inl probing
    · rename_i refused
      have token := granted probing.2
      rw [refused] at token
      cases token
  | acquireSlot v cap =>
    simp only [Pc.step] at h
    split at h
    · cases h
      exact Or.inl probing
    · rename_i refused
      have slot := granted probing.2
      rw [refused] at slot
      cases slot
  | loadTenant | loadTenantAgain | reloadDelivery | reloadEndpoint | loadEvent | commitDelivering
  | send | receive | commitOutcome | scheduleRetry | refresh =>
    left
    simp only [Pc.step] at h
    repeat' split at h
    all_goals cases h <;> exact probing
  | _ => exact probing.elim

end Step

/-! Requests only reset breakers -/

theorem Api.Command.breakers_exec (streamShards : Nat) (source : Source) (s : Store) (c : Command) :
    (c.exec streamShards source s).breakers = s.breakers := by
  obtain ⟨_, _, _, same⟩ := c.exec_frame streamShards source s
  rw [same]

theorem Api.breakers_commitRequeued (s : Store) (rows : List Delivery) :
    (commitRequeued s rows).breakers = s.breakers := by
  obtain ⟨_, _, same⟩ := commitRequeued_frame s rows
  rw [same]

section Requests

variable {streamShards : Nat} {clock : ℚ} {s s' : Store}

theorem Api.Ingest.breakers_step {ids : List Uuid} {r r' : Ingest}
    (h : Ingest.step streamShards ids s r = some (s', r')) : s'.breakers = s.breakers := by
  simp only [Ingest.step] at h
  repeat' split at h
  all_goals
    cases h <;> first | rfl | exact Command.breakers_exec _ _ _ _

theorem Api.Replay.breakers_step {r r' : Replay}
    (h : Replay.step streamShards s r = some (s', r')) :
    s'.breakers = s.breakers ∨ s' = s.resetBreaker r.body.endpointId := by
  simp only [Replay.step] at h
  repeat' split at h
  all_goals
    cases h <;> first
      | exact Or.inl rfl
      | exact Or.inl (breakers_commitRequeued _ _)
      | exact Or.inl (Command.breakers_exec _ _ _ _)
      | exact Or.inr rfl

theorem Api.Approve.breakers_step {r r' : Approve}
    (h : Approve.step streamShards clock s r = some (s', r')) :
    s'.breakers = s.breakers ∨ ∃ endpointId, s' = s.resetBreaker endpointId := by
  simp only [Approve.step] at h
  repeat' split at h
  all_goals
    cases h <;> first
      | exact Or.inl rfl
      | exact Or.inl (breakers_commitRequeued _ _)
      | exact Or.inl (Command.breakers_exec _ _ _ _)
      | exact Or.inr ⟨_, rfl⟩

end Requests

namespace World

variable {env : Env} {l : Label} {x y : World}

/-- No worker crashes and no call of a worker raises. -/
def Faultless (_ : World) (l : Label) : Prop := ∀ w, l ≠ .raise w ∧ l ≠ .crash w

/-- Besides, no probe is refused a token or a slot. -/
structure ProbesPass (x : World) (l : Label) : Prop where
  faultless : Faultless x l
  granted : ∀ w c h, l = .work w c → x.Handles w h → h.pc.Granted x.store x.clock c

/-- A half-open breaker has a probe in flight. -/
def Probed (x : World) : Prop :=
  ∀ endpointId, (x.store.breakers endpointId).current = .halfOpen →
    ∃ w h, x.Handles w h ∧ h.pc.Probing endpointId

theorem resetBreaker_halfOpen {s : Store} {reset endpointId : Uuid}
    (after : ((s.resetBreaker reset).breakers endpointId).current = .halfOpen) :
    (s.breakers endpointId).current = .halfOpen := by
  by_cases mine : endpointId = reset
  · subst mine
    simp only [Store.resetBreaker, Function.update_self] at after
    cases after
  · simpa only [Store.resetBreaker, Function.update_of_ne mine] using after

/-- Apart from workers nothing makes a breaker half open. -/
theorem step_halfOpen (h : World.step env l x = some y) (other : ∀ w c, l ≠ .work w c)
    {endpointId : Uuid} (after : (y.store.breakers endpointId).current = .halfOpen) :
    (x.store.breakers endpointId).current = .halfOpen := by
  cases l with
  | work w c => exact absurd rfl (other w c)
  | serve r ids =>
    simp only [World.step, stepServe] at h
    repeat' split at h
    all_goals cases h
    · rename_i next
      exact (congrArg (fun b => (b endpointId).current) (Ingest.breakers_step next)).symm.trans
        after
    · rename_i next
      rcases Replay.breakers_step next with same | rfl
      · exact (congrArg (fun b => (b endpointId).current) same).symm.trans after
      · exact resetBreaker_halfOpen after
    · rename_i next
      rcases Approve.breakers_step next with same | ⟨reset, rfl⟩
      · exact (congrArg (fun b => (b endpointId).current) same).symm.trans after
      · exact resetBreaker_halfOpen after
  | fail r =>
    simp only [World.step, stepFail] at h
    repeat' split at h
    all_goals cases h
    · rename_i next
      simp only [Ingest.fail] at next
      split at next <;> cases next <;> exact after
    · exact after
    · exact after
  | resetBreaker tenantId reset =>
    simp only [World.step, stepResetBreaker] at h
    split at h <;> cases h
    exact resetBreaker_halfOpen after
  | tick | createTenant | createEndpoint | patchEndpoint | proposeAction | read | claim | take
  | raise | crash | schedule | arrive =>
    simp only [World.step, stepTick, stepCreateTenant, stepCreateEndpoint, stepPatchEndpoint,
      stepProposeAction, stepRead, stepClaim, stepBegin, stepRaise, stepCrash, stepSchedule,
      stepArrive] at h
    repeat' split at h
    all_goals cases h <;> exact after

/-- The probe of a half-open breaker goes on, or its outcome is recorded. -/
theorem Probed.step (probed : Probed x) (pass : ProbesPass x l)
    (next : World.step env l x = some y) : Probed y := by
  intro endpointId after
  have change := step_change next
  by_cases working : ∃ w c, l = .work w c
  · obtain ⟨w, c, rfl⟩ := working
    cases change with
    | admin label => exact label.elim
    | drop label => rcases label with same | same <;> cases same
    | @work _ _ h pc _ handles step _ workers _ =>
      have goes : pc.Probing endpointId → ∃ w h, y.Handles w h ∧ h.pc.Probing endpointId := by
        intro probing
        have running : pc.session ≠ .finished := by
          intro finished
          cases pc <;> first | exact probing | cases finished
        exact ⟨w, _, goto_handles running workers, probing⟩
      rcases Pc.step_halfOpen step after with before | probing
      · obtain ⟨w', h', handles', probing⟩ := probed endpointId before
        by_cases mine : w' = w
        · subst mine
          have same : h' = h := Option.some.inj (handles'.symm.trans handles)
          subst same
          rcases Pc.step_probing step (pass.granted w' c h' rfl handles) probing with on | closed
          · exact goes on
          · exact absurd after closed
        · exact ⟨w', h', (handles_update_ne mine workers).mpr handles', probing⟩
      · exact goes probing
  · have other : ∀ w c, l ≠ .work w c := fun w c same => working ⟨w, c, same⟩
    obtain ⟨w, h, handles, probing⟩ := probed endpointId (step_halfOpen next other after)
    exact ⟨w, h, change.handles_kept handles (other w) (pass.faultless w).1 (pass.faultless w).2,
      probing⟩

/-- Where probes are refused nothing, an endpoint that no worker is busy with
has no half-open breaker. -/
theorem half_open_has_probe {shardOf : Nat → Nat} {endpointId : Uuid}
    (run : Run (World.step env) ProbesPass (initial shardOf) x)
    (quiet : ∀ w h v, x.Handles w h → h.pc.between = some v → v.endpoint.id ≠ endpointId) :
    (x.store.breakers endpointId).current ≠ .halfOpen := by
  have probed : Probed x := run.invariant (I := Probed) (fun _ h => by cases h)
    (fun inv pass next => inv.step pass next)
  intro halfOpen
  obtain ⟨w, h, handles, probing⟩ := probed endpointId halfOpen
  obtain ⟨v, between, same⟩ := probing.between
  exact quiet w h v handles between same

/-! A probe that passes, and one that the rate limit refuses -/

def till : Endpoint := { id := 1, tenantId := 2, eventTypes := ["order.created"] }

def desk : Endpoint := { id := 3, tenantId := 2, eventTypes := ["refund"] }

def failing : Choice := ⟨0, ⟨0, some 500, some "http_5xx", none, none⟩, 1⟩

/-- One delivery that fails at `time`; the fifth failure in a row publishes a trigger. -/
def failure (i : Nat) : List Label :=
  ingest i till (BitVec.ofNat 128 (10 + i)) (BitVec.ofNat 128 (30 + i)) ++
    [.tick (1 + i), .read 0, .take 0] ++
    works 0 (if i = 4 then 21 else 20) { failing with token := BitVec.ofNat 128 (50 + i) }

/-- Ten failures open the breaker of the first endpoint; at 700 s one more
delivery of it waits. The tenant may send one request a second. -/
def tripped : List Label :=
  [.createTenant { id := 2, ratePerSec := some 1 }, .createEndpoint till, .createEndpoint desk] ++
    (List.range 10).flatMap failure ++ [.tick 700] ++ ingest 10 till 20 40 ++
    [.read 0, .take 0]

def shards (w : Nat) : Nat := if w = 0 then 3 else 7

def faultless (_ : World) : Label → Bool
  | .raise _ | .crash _ => false
  | _ => true

theorem faultless_sound (checked : faultless x l = true) : Faultless x l := by
  refine fun w => ⟨?_, ?_⟩
  · rintro rfl
    cases checked
  · rintro rfl
    cases checked

def probesPass (x : World) : Label → Bool
  | .work w c =>
    match (x.workers w).current with
    | none => true
    | some h =>
      match h.pc with
      | .takeToken v rate =>
        (x.store.takeToken v.endpoint.tenantId rate x.clock v.now).2
      | .acquireSlot v cap =>
        (x.store.acquireSlot v.endpoint.tenantId cap x.clock v.now c.token).2
      | _ => true
  | l => faultless x l

theorem probesPass_sound (checked : probesPass x l = true) : ProbesPass x l where
  faultless := by
    cases l with
    | work => exact fun _ => ⟨nofun, nofun⟩
    | _ => exact faultless_sound checked
  granted := by
    rintro w c h rfl handles
    unfold Handles at handles
    simp only [probesPass, handles] at checked
    cases pc : h.pc
    all_goals
      first
        | exact trivial
        | exact fun _ => by simpa only [pc] using checked

/-- The probe passes and its success closes the breaker. -/
theorem half_open_has_probe_passing : ∃ x : World,
    Run (World.step headerless) ProbesPass (initial shards) x ∧
      (∀ w h v, x.Handles w h → h.pc.between = some v → v.endpoint.id ≠ 1) ∧
      (x.store.breakers 1).current ≠ .halfOpen := by
  have evaluates : (exec (World.step headerless) probesPass
      (tripped ++ works 0 19 ⟨80, answered, 1⟩) (initial shards)).elim false
        (resting 1) = true := by
    decide +kernel
  obtain ⟨x, executed, rests⟩ := reached evaluates
  have sound : ∀ {x l}, Untouched 1 11 x → Within 1 11 l = true → probesPass x l = true →
      ProbesPass x l := fun _ _ => probesPass_sound
  have run := schedule_run (untouched_initial 1 11 _) (by decide +kernel) sound executed
  have quiet : ∀ w h v, x.Handles w h → h.pc.between = some v → v.endpoint.id ≠ 1 :=
    fun w h v handles _ => absurd handles (resting_sound run.2 rests w h)
  exact ⟨x, run.1, quiet, half_open_has_probe run.1 quiet⟩

/-- Another endpoint of the tenant takes the token of that second; the probe is
refused and deferred, and its worker leaves. -/
def refusedProbe : List Label :=
  tripped ++ [.arrive 11 (.ingest 2 ⟨"refund", "payload", none⟩), .serve 11 [21, 41]] ++
    serves 11 3 ++ [.read 1, .take 1] ++ works 1 19 ⟨81, answered, 1⟩ ++
    works 0 8 ⟨80, answered, 1⟩

/-- The breaker is half open, nothing is in flight, and nothing has failed. -/
theorem half_open_without_probe : ∃ x : World,
    Run (World.step headerless) Faultless (initial shards) x ∧
      (∀ w h, ¬ x.Handles w h) ∧ (x.store.breakers 1).current = .halfOpen := by
  have evaluates : (exec (World.step headerless) faultless refusedProbe
      (initial shards)).elim false
        (fun x => resting 2 x && decide ((x.store.breakers 1).current = .halfOpen)) = true := by
    decide +kernel
  obtain ⟨x, executed, passes⟩ := reached evaluates
  obtain ⟨rests, halfOpen⟩ := Bool.and_eq_true_iff.mp passes
  have sound : ∀ {x l}, Untouched 2 12 x → Within 2 12 l = true → faultless x l = true →
      Faultless x l := fun _ _ => faultless_sound
  have run := schedule_run (untouched_initial 2 12 _) (by decide +kernel) sound executed
  exact ⟨x, run.1, resting_sound run.2 rests, of_decide_eq_true halfOpen⟩

end World

end Relay
