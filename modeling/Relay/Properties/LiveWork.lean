import Relay.Pipeline.Holding
import Relay.Pipeline.Schedule
import Mathlib.Tactic.Linarith

/-!
# Is live work ever stolen?

The idle threshold is compared with the age of a single entry, but a claimed
batch is handled one message after another while all of it ages. An entry is
safe as long as its batch is finished within the threshold.
-/

namespace Relay.World

open Enqueue RetryQueue Worker Api Transition

variable {env : Env} {l : Label} {x y : World}

instance (x : World) (w id : Nat) : Decidable (x.Holds w id) :=
  inferInstanceAs (Decidable (id ∈ (x.held w).map Prod.fst))

/-- The handling times of every batch together stay below the idle threshold. -/
def BatchesInTime (x : World) (l : Label) : Prop :=
  ∀ time, l = .tick time → ∀ w, x.held w ≠ [] →
    time < x.batchAt w + reclaimMinIdleMs / 1000

/-- Held entries are pending since their batch was obtained, not long ago. -/
structure Recent (x : World) : Prop where
  since : ∀ w id, x.Holds w id →
    ∃ p ∈ (x.streamOf w).pending, p.id = id ∧ p.since = x.batchAt w
  young : ∀ w, x.held w ≠ [] → x.clock < x.batchAt w + reclaimMinIdleMs / 1000

theorem recent_initial (shardOf : Nat → Nat) : Recent (initial shardOf) where
  since := fun _ _ holds => absurd holds List.not_mem_nil
  young := fun _ held => absurd rfl held

theorem Holds.held_ne_nil {w id : Nat} (holds : x.Holds w id) : x.held w ≠ [] := by
  intro empty
  simp [Holds, empty] at holds

/-- XAUTOCLAIM passes over every entry of a batch that is in time. -/
theorem Recent.not_stale (recent : Recent x) {w id : Nat} (holds : x.Holds w id) :
    ¬ (x.streamOf w).Stale (reclaimMinIdleMs / 1000) x.clock id := by
  rintro ⟨p, listed, same, idle⟩
  obtain ⟨p', listed', same', since⟩ := recent.since w id holds
  have unique : p = p' :=
    List.inj_on_of_nodup_map (x.streamOf w).pending_nodup listed listed' (same.trans same'.symm)
  have young := recent.young w holds.held_ne_nil
  rw [unique, since] at idle
  linarith

theorem Recent.released (recent : Recent x) (change : Change env x y l) :
    ClaimsReleased x l := by
  rintro w ids rfl id listed w' shard holds
  cases change with
  | admin label => exact label.elim
  | claim _ _ _ _ stale =>
    have stream : x.streamOf w' = x.streamOf w := congrArg x.core.queues.streams shard
    exact recent.not_stale holds (stream ▸ stale id listed)
  | drop label => rcases label with same | same <;> cases same

/-- How long a pending entry has been idle changes only when it is claimed. -/
theorem Change.since (change : Change env x y l) {n : Nat} {p : PendingEntry}
    (old : p ∈ (x.core.queues.streams n).pending) :
    p ∈ (y.core.queues.streams n).pending ∨ Acks x y l n p.id ∨
      ∃ w ids, l = .claim w ids ∧ x.shard w = n ∧ p.id ∈ ids := by
  cases change.grows n with
  | same same => exact Or.inl (same ▸ old)
  | added _ same => exact Or.inl (same ▸ old)
  | @read w _ shard unread now =>
    subst shard
    left
    rw [now, StreamLog.pending_xreadgroup (s := x.core.queues.streams (x.shard w)) unread]
    exact List.mem_append_left _ old
  | @claim w ids label shard now =>
    by_cases claimed : p.id ∈ ids
    · exact Or.inr (Or.inr ⟨w, ids, label, shard, claimed⟩)
    · left
      rw [now]
      refine List.mem_map.mpr ⟨p, old, ?_⟩
      simp [StreamLog.PendingEntry.claimBy, claimed]
  | @ack id acks now =>
    by_cases mine : p.id = id
    · exact Or.inr (Or.inl (mine ▸ acks))
    · left
      rw [now]
      exact List.mem_filter.mpr ⟨old, by simpa using mine⟩

theorem Change.read_since {w : Nat} (change : Change env x y (.read w)) :
    ∃ p ∈ (y.core.queues.streams (x.shard w)).pending,
      p.id = (x.streamOf w).lastDelivered ∧ p.since = x.clock := by
  cases change with
  | admin label => exact label.elim
  | read _ _ next core _ _ =>
    have unread := (List.getElem?_eq_some_iff.mp next).1
    rw [core, streams_onStream, if_pos rfl,
      StreamLog.pending_xreadgroup (s := x.core.queues.streams (x.shard w)) unread]
    exact ⟨_, List.mem_append_right _ List.mem_cons_self, rfl, rfl⟩
  | drop label => rcases label with same | same <;> cases same

theorem Change.claim_since {w id : Nat} {ids : List Nat}
    (change : Change env x y (.claim w ids)) (listed : id ∈ ids)
    (pending : (x.streamOf w).IsPending id) :
    ∃ p ∈ (y.core.queues.streams (x.shard w)).pending, p.id = id ∧ p.since = x.clock := by
  obtain ⟨p, old, rfl⟩ := List.mem_map.mp pending
  cases change with
  | admin label => exact label.elim
  | claim _ _ _ _ _ core _ _ =>
    rw [core, streams_onStream, if_pos rfl]
    refine ⟨_, List.mem_map_of_mem old, StreamLog.PendingEntry.claimBy_id _ _ _ _, ?_⟩
    simp [StreamLog.PendingEntry.claimBy, listed]
  | drop label => rcases label with same | same <;> cases same

theorem Recent.step (recent : Recent x) (exclusive : Exclusive x) (inTime : BatchesInTime x l)
    (change : Change env x y l) : Recent y where
  since := by
    intro w id holds
    have released := recent.released change
    rw [change.streamOf w]
    rcases change.holds holds with old | ⟨rfl, rfl, _⟩ | ⟨ids, rfl, listed, stale⟩
    · obtain ⟨p, listed, same, since⟩ := recent.since w id old
      have kept : p ∈ (y.core.queues.streams (x.shard w)).pending := by
        rcases change.since listed with kept | acks | ⟨w', ids, label, shard, claimed⟩
        · exact kept
        · exact absurd (same ▸ holds) (exclusive.released acks rfl change)
        · exact absurd old (released w' ids label id (same ▸ claimed) w shard.symm)
      have batch : y.batchAt w = x.batchAt w := by
        cases change.hands w with
        | fewer _ batch => exact batch holds.held_ne_nil
        | read _ idle | claim _ idle =>
          rw [Holds, idle.held_nil] at old
          exact absurd old List.not_mem_nil
      exact ⟨p, kept, same, since.trans batch.symm⟩
    · obtain ⟨p, listed, same, since⟩ := change.read_since
      cases change.hands w with
      | fewer sub _ =>
        have old : x.Holds w (x.streamOf w).lastDelivered := (sub.map Prod.fst).subset holds
        exact absurd (exclusive.pending w _ old).lt (Nat.lt_irrefl _)
      | read _ _ _ _ batch => exact ⟨p, listed, same, since.trans batch.symm⟩
      | claim label => cases label
    · obtain ⟨p, member, same, since⟩ := change.claim_since listed stale.isPending
      cases change.hands w with
      | fewer sub _ =>
        have old : x.Holds w id := (sub.map Prod.fst).subset holds
        exact absurd old (released w ids rfl id listed w rfl)
      | claim _ _ _ _ _ batch => exact ⟨p, member, same, since.trans batch.symm⟩
      | read label => cases label
  young := by
    intro w held
    have positive : (0 : ℚ) < reclaimMinIdleMs / 1000 := by norm_num [reclaimMinIdleMs]
    cases change.hands w with
    | fewer sub batch =>
      have before : x.held w ≠ [] := by
        intro empty
        rw [empty] at sub
        exact held (List.sublist_nil.mp sub)
      rw [batch held]
      rcases change.clock with same | ⟨time, label, _, now⟩
      · exact same ▸ recent.young w before
      · exact now ▸ inTime time label w before
    | read label _ _ _ batch | claim label _ _ _ _ batch =>
      subst label
      rcases change.clock with same | ⟨_, label, _⟩
      · rw [same, batch]
        linarith
      · cases label

/-- While batches are finished in time, XAUTOCLAIM takes no entry that a live
worker read or claimed and has not finished. -/
theorem live_work_kept {shardOf : Nat → Nat} {w : Nat} {ids : List Nat}
    (run : Run (World.step env) BatchesInTime (initial shardOf) x)
    (claim : World.step env (.claim w ids) x = some y) :
    ∀ id ∈ ids, ∀ w', x.shard w' = x.shard w → ¬ x.Holds w' id := by
  have inv : Exclusive x ∧ Recent x := run.invariant
    (I := fun x => Exclusive x ∧ Recent x)
    ⟨exclusive_initial shardOf, recent_initial shardOf⟩
    (fun inv inTime next => ⟨inv.1.step (inv.2.released (step_change next)) (step_change next),
      inv.2.step inv.1 inTime (step_change next)⟩)
  exact inv.2.released (step_change claim) w ids rfl

/-! Two batches: one in time, one of seven slow messages -/

/-- The check of `BatchesInTime` for the first `n` workers. -/
def batchesInTime (n : Nat) (x : World) : Label → Bool
  | .tick time => (List.range n).all (fun w =>
      (x.held w).isEmpty || decide (time < x.batchAt w + reclaimMinIdleMs / 1000))
  | _ => true

theorem batchesInTime_sound {n m : Nat} (untouched : Untouched n m x)
    (checked : batchesInTime n x l = true) : BatchesInTime x l := by
  rintro time rfl w held
  have inside : w < n := by
    by_contra outside
    exact held (untouched.workers w (Nat.le_of_not_lt outside))
  have mine := List.all_eq_true.mp checked w (List.mem_range.mpr inside)
  simpa [held] using mine

/-- Worker 2 drops entry 0 on an exception; worker 0 holds entry 1 when worker 1
claims entry 0. -/
def dropped : List Label :=
  ingested shop 10 20 ++ ingest 1 shop 11 21 ++ [.read 2, .take 2, .raise 2, .work 2 {}, .tick 30,
    .read 0, .tick 70]

theorem live_work_kept_dropped : ∃ x y : World,
    Run (World.step headerless) BatchesInTime (initial (fun _ => 3)) x ∧
      World.step headerless (.claim 1 [0]) x = some y ∧ x.Holds 0 1 ∧
      ∀ id ∈ [0], ∀ w', x.shard w' = x.shard 1 → ¬ x.Holds w' id := by
  have evaluates : (exec (World.step headerless) (batchesInTime 3) dropped
      (initial (fun _ => 3))).elim false (fun x => decide (x.Holds 0 1) &&
        (World.step headerless (.claim 1 [0]) x).elim false (fun _ => true)) = true := by
    decide +kernel
  obtain ⟨x, executed, passes⟩ := reached evaluates
  obtain ⟨holds, rest⟩ := Bool.and_eq_true_iff.mp passes
  obtain ⟨y, claim, _⟩ := reached rest
  have sound : ∀ {x l}, Untouched 3 2 x → Within 3 2 l = true → batchesInTime 3 x l = true →
      BatchesInTime x l := fun untouched _ => batchesInTime_sound untouched
  have run := (schedule_run (untouched_initial 3 2 _) (by decide) sound executed).1
  exact ⟨x, y, run, claim, of_decide_eq_true holds, live_work_kept run claim⟩

/-- Every handling takes at most the delivery timeout, the messages of a batch
follow each other at once, and no worker crashes. -/
structure Timely (env : Env) (x : World) (l : Label) : Prop where
  timeout : ∀ time, l = .tick time → ∀ w h, x.Handles w h →
    time ≤ h.startedAt + env.settings.deliveryTimeoutSeconds
  prompt : ∀ time, l = .tick time → ∀ w, x.held w ≠ [] → ∃ h, x.Handles w h
  alive : ∀ w, l ≠ .crash w

def timely (n : Nat) (x : World) : Label → Bool
  | .tick time => (List.range n).all (fun w =>
      match (x.workers w).current with
      | none => (x.held w).isEmpty
      | some h => decide (time ≤ h.startedAt + headerless.settings.deliveryTimeoutSeconds))
  | .crash _ => false
  | _ => true

theorem timely_sound {n m : Nat} (untouched : Untouched n m x) (checked : timely n x l = true) :
    Timely headerless x l where
  timeout := by
    rintro time rfl w h handles
    have mine := List.all_eq_true.mp checked w (List.mem_range.mpr (untouched.handles handles))
    unfold Handles at handles
    simpa [handles] using mine
  prompt := by
    rintro time rfl w held
    have inside : w < n := by
      by_contra outside
      exact held (untouched.workers w (Nat.le_of_not_lt outside))
    have mine := List.all_eq_true.mp checked w (List.mem_range.mpr inside)
    cases current : (x.workers w).current with
    | some h => exact ⟨h, current⟩
    | none => exact absurd (by simpa [current] using mine) held
  alive := by
    rintro w rfl
    cases checked

/-- Ten seconds for one message: the receiver answers late. -/
def slowly (w : Nat) (time : ℚ) : List Label :=
  .take w :: works w 12 ⟨7, answered, 1⟩ ++ [.tick time] ++ works w 7 ⟨7, answered, 1⟩

/-- Seven dropped entries are claimed at 60 s; six of them take ten seconds each. -/
def slowBatch : List Label :=
  [.createTenant { id := 2 }, .createEndpoint shop] ++
    (List.range 7).flatMap
      (fun i => ingest i shop (BitVec.ofNat 128 (10 + i)) (BitVec.ofNat 128 (20 + i))) ++
    (List.range 7).flatMap (fun _ => [.read 2, .take 2, .raise 2, .work 2 {}]) ++
    [.tick 60, .claim 0 [0, 1, 2, 3, 4, 5, 6]] ++ slowly 0 70 ++ slowly 0 80 ++ slowly 0 90 ++
    slowly 0 100 ++ slowly 0 110 ++ slowly 0 120

/-- The seventh is taken from worker 0, which is alive and has not begun it. -/
theorem live_work_stolen : ∃ x y : World,
    Run (World.step headerless) (Timely headerless) (initial (fun _ => 3)) x ∧
      World.step headerless (.claim 1 [6]) x = some y ∧ x.shard 0 = x.shard 1 ∧
      (x.workers 0).crashed = false ∧ x.Holds 0 6 := by
  have evaluates : (exec (World.step headerless) (timely 3) slowBatch
      (initial (fun _ => 3))).elim false (fun x =>
        decide (x.shard 0 = x.shard 1 ∧ (x.workers 0).crashed = false ∧ x.Holds 0 6) &&
        (World.step headerless (.claim 1 [6]) x).elim false (fun _ => true)) = true := by
    decide +kernel
  obtain ⟨x, executed, passes⟩ := reached evaluates
  obtain ⟨state, rest⟩ := Bool.and_eq_true_iff.mp passes
  obtain ⟨y, claim, _⟩ := reached rest
  have sound : ∀ {x l}, Untouched 3 7 x → Within 3 7 l = true → timely 3 x l = true →
      Timely headerless x l := fun untouched _ => timely_sound untouched
  have run := (schedule_run (untouched_initial 3 7 _) (by decide) sound executed).1
  exact ⟨x, y, run, claim, of_decide_eq_true state⟩

end Relay.World
