import Relay.Pipeline.Audit
import Relay.Pipeline.Schedule
import Relay.Properties.NoLostDelivery

/-!
# Is the audit trail complete?

The register of a delivery stays balanced as long as no worker lets go of a number
between the two commits of an attempt and no stale count is committed. Otherwise
a number is missing for good, or is used twice.
-/

namespace Relay

open Enqueue RetryQueue Worker Api Transition Register

namespace Worker

theorem Pc.slip_session {pc : Pc} {id : Uuid} {acks : Bool} (leaves : pc.session = .leaving acks) :
    pc.slip id = none := by
  cases pc <;> first | rfl | cases leaves

end Worker

namespace Audit

open World

variable {env : Env} {l : Label} {a b : Audit} {id : Uuid}

/-- The pipeline has just started; nothing is answered. -/
def start (shardOf : Nat → Nat) : Audit := ⟨initial shardOf, []⟩

/-- The attempt rows are numbered one to the count, one for every reply. -/
structure Trail (a : Audit) (id : Uuid) (row : Delivery) : Prop where
  numbers : ((a.world.store.attemptsOf id).map DeliveryAttempt.attemptNumber).Perm
    (List.range' 1 row.attemptCount)
  answers : (a.world.store.attemptsOf id).Perm (a.answeredOf id)

/-- Whoever holds a number of the delivery handles one of its entries. -/
def Owned (id : Uuid) (x : World) : Prop :=
  ∀ w h, x.Handles w h → (h.pc.slip id).isSome = true → h.fields.deliveryId = id

theorem Owned.step {x y : World} (owned : Owned id x) (inv : Consistent env x)
    (change : Change env x y l) : Owned id y := by
  intro w h handles holds
  cases change.arises handles with
  | same old _ => exact owned w h old holds
  | begun _ _ begun =>
    subst begun
    cases holds
  | raised _ _ session _ =>
    rw [Pc.slip_session session] at holds
    cases holds
  | @moved _ old _ handled step _ kept =>
    rw [kept.2.1]
    rcases (Pc.step_books step).origin holds with before | ⟨v, slot, pc, own⟩
    · exact owned w old handled before
    · have sound := inv.sessions w old handled
      rw [pc] at sound
      exact (congrArg Fields.deliveryId sound.1.fields).symm.trans own

/-- The guard of `audit_trail`. -/
structure Keeps (env : Env) (id : Uuid) (a : Audit) (l : Label) : Prop where
  noReplay : NoReplay env id a.world l
  gapless : Gapless id a.world l

/-- All that is kept along a run in which no number gets lost. -/
structure Complete (env : Env) (id : Uuid) (a : Audit) : Prop where
  inv : Consistent env a.world
  timed : OutcomesTimed a.world
  owned : Owned id a.world
  balanced : Balanced DeliveryAttempt.attemptNumber (a.register id)

theorem complete_start (env : Env) (id : Uuid) (shardOf : Nat → Nat) :
    Complete env id (start shardOf) where
  inv := consistent_initial env shardOf
  timed := by
    intro w h d e outcome delay handles
    cases handles
  owned := by
    intro w h handles
    cases handles
  balanced := balanced_empty

theorem Complete.step (old : Complete env id a) (keeps : Keeps env id a l)
    (stepped : step env l a = some b) : Complete env id b := by
  have step := step_register old.inv old.timed keeps.noReplay keeps.gapless stepped
  obtain ⟨y, next, rfl⟩ := Option.map_eq_some_iff.mp stepped
  have change := step_change next
  exact {
    inv := old.inv.step change
    timed := old.timed.step change
    owned := old.owned.step old.inv change
    balanced := old.balanced.step step }

/-- When nobody handles the delivery, whether its entries are acknowledged or
not, its attempt rows are numbered one to its count, one for every reply. -/
theorem audit_trail {shardOf : Nat → Nat} {row : Delivery}
    (run : Run (step env) (Keeps env id) (start shardOf) a)
    (quiet : ∀ w h, a.world.Handles w h → h.fields.deliveryId ≠ id)
    (found : a.world.store.db.delivery id = some row) : a.Trail id row := by
  have kept : Complete env id a := run.invariant (complete_start env id shardOf)
    (fun old keeps next => old.step keeps next)
  have idle : ∀ w, (a.register id).hands w = none := by
    intro w
    change (a.world.workers w).current.bind (fun h => h.pc.slip id) = none
    cases handles : (a.world.workers w).current with
    | none => rfl
    | some h =>
      rw [Option.bind_some]
      cases holds : h.pc.slip id with
      | none => rfl
      | some s => exact absurd (kept.owned w h handles (by rw [holds]; rfl)) (quiet w h handles)
  have counted : (a.register id).count = row.attemptCount := by
    change (a.world.store.db.delivery id).elim 0 Delivery.attemptCount = row.attemptCount
    rw [found]
    rfl
  refine ⟨?_, kept.balanced.filed_perm idle⟩
  rw [← counted]
  exact kept.balanced.numbers_perm idle

/-! Executed schedules -/

/-- A schedule that evaluates is a run under every guard that its check implies. -/
theorem audited_run {workers requests : Nat} {admits : Audit → Label → Bool}
    {guard : Audit → Label → Prop} {labels : List Label}
    (start : Untouched workers requests a.world)
    (within : labels.all (Within workers requests) = true)
    (sound : ∀ {a l}, Untouched workers requests a.world → admits a l = true → guard a l)
    (done : exec (step env) admits labels a = some b) :
    Run (step env) guard a b ∧ Untouched workers requests b.world := by
  have inside : ∀ l ∈ labels, Within workers requests l = true := List.all_eq_true.mp within
  refine exec_run (I := fun a => Untouched workers requests a.world) start ?_ ?_ done
  · intro l listed a b untouched stepped
    obtain ⟨y, next, rfl⟩ := Option.map_eq_some_iff.mp stepped
    exact untouched.step (inside l listed) (step_change next)
  · exact fun _ _ _ untouched admitted => sound untouched admitted

/-- Only ingestions run. -/
def ingests (x : World) : Label → Bool
  | .serve r _ =>
    match x.requests r with
    | some (.ingest _) => true
    | _ => false
  | _ => true

theorem ingests_sound {x : World} (checked : ingests x l = true) : NoReplay env id x l := by
  rintro r ids q rows rfl running job
  simp only [ingests, running] at checked
  cases q with
  | ingest q => cases pc : q.pc <;> simp [Request.job, Ingest.job, pc] at job
  | replay | approve => cases checked

def keeps (id : Uuid) (a : Audit) (l : Label) : Bool :=
  ingests a.world l &&
    match l with
    | .crash w | .raise w => (a.world.hands id w).isNone
    | .work w _ =>
      match (a.world.workers w).current.map Handling.pc with
      | some (.commitDelivering v _) =>
        decide (v.delivery.id = id → a.world.store.count id = v.delivery.attemptCount)
      | _ => true
    | _ => true

theorem keeps_sound (checked : keeps id a l = true) : Keeps env id a l := by
  obtain ⟨requests, label⟩ := Bool.and_eq_true_iff.mp checked
  refine ⟨ingests_sound requests, ?_, ?_⟩
  · rintro w (rfl | rfl) <;> exact Option.isNone_iff_eq_none.mp label
  · rintro w c h v slot rfl handles pc own
    unfold Handles at handles
    simp only [handles, Option.map_some, pc] at label
    exact of_decide_eq_true label own

/-- Worker 0 crashes between the retry it schedules and the acknowledgement, so
that workers 1 and 2 both bring the delivery back, one after the other. -/
def twice : List Label :=
  ingested shop 10 11 ++ [.read 0, .take 0] ++ works 0 15 erring ++
    [.crash 0, .tick 60, .claim 1 [0], .take 1] ++ works 1 19 succeeding ++
    [.schedule 60 500, .read 2, .take 2] ++ works 2 3 succeeding

theorem audit_trail_twice : ∃ (a : Audit) (row : Delivery),
    Run (step headerless) (Keeps headerless 11) (start (fun _ => 3)) a ∧
      a.world.store.db.delivery 11 = some row ∧ row.attemptCount = 2 ∧ a.Trail 11 row := by
  have evaluates : (exec (step headerless) (keeps 11) twice (start (fun _ => 3))).elim false
      (fun a => resting 3 a.world && decide ((a.world.store.db.delivery 11).map
        Delivery.attemptCount = some 2)) = true := by
    decide +kernel
  obtain ⟨a, executed, passes⟩ := reached evaluates
  obtain ⟨rests, counted⟩ := Bool.and_eq_true_iff.mp passes
  obtain ⟨row, found, two⟩ := Option.map_eq_some_iff.mp (of_decide_eq_true counted)
  have run : Run (step headerless) (Keeps headerless 11) (start (fun _ => 3)) a ∧
      Untouched 3 1 a.world :=
    audited_run (untouched_initial 3 1 _) (by decide) (fun _ => keeps_sound) executed
  have quiet : ∀ w h, a.world.Handles w h → h.fields.deliveryId ≠ 11 :=
    fun w h handles => absurd handles (resting_sound run.2 rests w h)
  exact ⟨a, row, run.1, found, two, audit_trail run.1 quiet found⟩

/-! A number that is lost, and one that is used twice -/

/-- No replay, and only entries of crashed workers are claimed. -/
structure Premises (id : Uuid) (a : Audit) (l : Label) : Prop where
  noReplay : NoReplay headerless id a.world l
  released : ClaimsReleased a.world l

def premises (n : Nat) (a : Audit) (l : Label) : Bool :=
  ingests a.world l && releasedClaims n a.world l

theorem premises_sound {n m : Nat} (untouched : Untouched n m a.world)
    (checked : premises n a l = true) : Premises id a l := by
  obtain ⟨requests, claims⟩ := Bool.and_eq_true_iff.mp checked
  exact ⟨ingests_sound requests, releasedClaims_sound untouched claims⟩

/-- Nobody handles anything, and every entry of the delivery is acknowledged. -/
structure Quiet (id : Uuid) (x : World) : Prop where
  idle : ∀ w h, ¬ x.Handles w h
  acked : ∀ n i f, x.Entry n i f → f.deliveryId = id → ¬ x.Unacked n i

/-- The stream of the delivery's shard is read to its end and acknowledged. -/
def Drained (id : Uuid) (x : World) : Prop :=
  x.store.db.delivery id = some ⟨id, 10, 1, .delivered, 2, none⟩ ∧
    (x.store.queues.streams 3).pending = [] ∧
    (x.store.queues.streams 3).lastDelivered = (x.store.queues.streams 3).entries.length

instance (id : Uuid) (x : World) : Decidable (Drained id x) :=
  inferInstanceAs (Decidable (_ ∧ _ ∧ _))

theorem Drained.acked {x : World} (inv : Consistent headerless x) (drained : Drained id x)
    {n i : Nat} {f : Fields} (entry : x.Entry n i f) (same : f.deliveryId = id) :
    ¬ x.Unacked n i := by
  obtain ⟨found, noPending, allRead⟩ := drained
  obtain ⟨known, shard⟩ := inv.core.entries n f (List.mem_of_getElem? entry)
  obtain ⟨r, row, _, endpoint⟩ := known.row
  rw [same] at row
  cases row.symm.trans found
  have three : shardFor headerless.settings.streamShards 1 = 3 := by decide +kernel
  rw [← endpoint, three] at shard
  subst shard
  exact StreamLog.not_unacked_of_drained noPending allRead

/-- What a schedule of three workers leaves behind, with these attempt numbers. -/
def leaves (numbers : List Nat) (a : Audit) : Bool :=
  resting 3 a.world && decide (Drained 11 a.world ∧
    (a.world.store.attemptsOf 11).map DeliveryAttempt.attemptNumber = numbers)

theorem quiet_of_leaves (labels : List Label) (numbers : List Nat)
    (within : labels.all (Within 3 1) = true)
    (evaluates : (exec (step headerless) (premises 3) labels (start (fun _ => 3))).elim false
      (leaves numbers) = true) :
    ∃ a, Run (step headerless) (Premises 11) (start (fun _ => 3)) a ∧ Quiet 11 a.world ∧
      a.world.store.db.delivery 11 = some ⟨11, 10, 1, .delivered, 2, none⟩ ∧
      (a.world.store.attemptsOf 11).map DeliveryAttempt.attemptNumber = numbers := by
  obtain ⟨a, executed, passes⟩ := reached evaluates
  obtain ⟨rests, state⟩ := Bool.and_eq_true_iff.mp passes
  obtain ⟨drained, listed⟩ := of_decide_eq_true state
  have run : Run (step headerless) (Premises 11) (start (fun _ => 3)) a ∧
      Untouched 3 1 a.world :=
    audited_run (untouched_initial 3 1 _) within premises_sound executed
  have inv : Consistent headerless a.world := by
    refine run.1.invariant (I := fun a => Consistent headerless a.world)
      (consistent_initial headerless _) (fun old _ stepped => ?_)
    obtain ⟨y, next, rfl⟩ := Option.map_eq_some_iff.mp stepped
    exact old.step (step_change next)
  exact ⟨a, run.1, ⟨resting_sound run.2 rests, fun n i f => drained.acked inv⟩,
    drained.1, listed⟩

/-- Worker 0 crashes after the commit of `delivering`, before the request. -/
def skipped : List Label :=
  ingested shop 10 11 ++ [.read 0, .take 0] ++ works 0 11 succeeding ++
    [.crash 0, .tick 60, .claim 1 [0], .take 1] ++ works 1 19 succeeding

theorem audit_trail_gap : ∃ (a : Audit) (row : Delivery),
    Run (step headerless) (Premises 11) (start (fun _ => 3)) a ∧ Quiet 11 a.world ∧
      a.world.store.db.delivery 11 = some row ∧ ¬ a.Trail 11 row := by
  obtain ⟨a, run, quiet, found, numbers⟩ :=
    quiet_of_leaves skipped [2] (by decide) (by decide +kernel)
  refine ⟨a, _, run, quiet, found, fun trail => ?_⟩
  have sameLength := trail.numbers.length_eq
  rw [numbers] at sameLength
  cases sameLength

/-- Workers 1 and 2 hold the entry and the retry of the first attempt at the
same time; both load the count one. -/
def repeated : List Label :=
  ingested shop 10 11 ++ [.read 0, .take 0] ++ works 0 15 erring ++
    [.crash 0, .tick 60, .claim 1 [0], .take 1, .work 1 succeeding, .schedule 60 500, .read 2,
      .take 2, .work 2 succeeding] ++ works 1 18 succeeding ++ works 2 18 succeeding

theorem audit_trail_repeat : ∃ (a : Audit) (row : Delivery),
    Run (step headerless) (Premises 11) (start (fun _ => 3)) a ∧ Quiet 11 a.world ∧
      a.world.store.db.delivery 11 = some row ∧ ¬ a.Trail 11 row := by
  obtain ⟨a, run, quiet, found, numbers⟩ :=
    quiet_of_leaves repeated [1, 2, 2] (by decide) (by decide +kernel)
  refine ⟨a, _, run, quiet, found, fun trail => ?_⟩
  have sameLength := trail.numbers.length_eq
  rw [numbers] at sameLength
  cases sameLength

end Audit

end Relay
