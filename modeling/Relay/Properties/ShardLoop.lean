import Relay.Properties.ShardsSupervised

/-!
# What a shard task does between its reads

An outage slows the loop down and does not end it: the first wait is half a
second, each later one twice as long up to ten, and they start over at the next
answered read. A read is never issued long after the last reclaim pass.
-/

namespace Relay.Shards

open Transition

namespace ShardTask

variable {t t' : ShardTask} {stop : Bool} {time clock : ℚ} {e : Ending}

/-- The reclaim pass that the next one is counted from. -/
def Reclaims (clock : ℚ) (t : ShardTask) : Prop :=
  match t.reclaimedAt with
  | none => t.nextReclaim ≤ clock
  | some r => t.nextReclaim = r + reclaimIntervalS ∧ r ≤ clock

/-- A read comes less than the interval after a pass. -/
def ReadsInTime (t : ShardTask) : Prop :=
  t.pc = .xreadgroup →
    ∃ r, t.reclaimedAt = some r ∧ r ≤ t.calledAt ∧ t.calledAt < r + reclaimIntervalS

/-- The delay fits the outages that were caught. -/
def Paced (t : ShardTask) : Prop :=
  match t.pc with
  | .sleep => reconnect.Waits t.delay t.failures
  | .ended _ => True
  | _ => reconnect.Ready t.delay t.failures

structure Sound (clock : ℚ) (t : ShardTask) : Prop where
  paced : t.Paced
  reclaims : t.Reclaims clock
  reads : t.ReadsInTime
  fresh : t.pc = .created → t.reclaimedAt = none

theorem Reclaims.later (reclaims : t.Reclaims clock) (le : clock ≤ time) : t.Reclaims time := by
  unfold Reclaims at *
  split at reclaims
  · exact le_trans reclaims le
  · exact ⟨reclaims.1, le_trans reclaims.2 le⟩

theorem Sound.later (sound : t.Sound clock) (le : clock ≤ time) : t.Sound time :=
  ⟨sound.paced, sound.reclaims.later le, sound.reads, sound.fresh⟩

theorem sound_create (shard : Nat) (time : ℚ) : (create shard time).Sound time :=
  ⟨Backoff.ready_base, le_refl time, nofun, fun _ => rfl⟩

theorem paced_goto {pc : Pc} (ready : reconnect.Ready t.delay t.failures) (awake : pc ≠ .sleep) :
    (t.goto time pc).Paced := by
  cases pc with
  | sleep => exact absurd rfl awake
  | ended => trivial
  | _ => exact ready

/-- Control moves on, neither to a read nor to sleep. -/
theorem sound_goto {pc : Pc} (ready : reconnect.Ready t.delay t.failures)
    (reclaims : t.Reclaims time) (other : pc ≠ .xreadgroup) (begun : pc ≠ .created)
    (awake : pc ≠ .sleep) : (t.goto time pc).Sound time :=
  ⟨paced_goto ready awake, reclaims, fun reading => absurd reading other,
    fun again => absurd again begun⟩

theorem sound_ended {outcome : Outcome} (reclaims : t.Reclaims time) :
    (t.goto time (.ended outcome)).Sound time :=
  ⟨trivial, reclaims, nofun, nofun⟩

/-- The test at the head of a round lets a read through only if the pass is recent. -/
theorem sound_round (ready : reconnect.Ready t.delay t.failures) (reclaims : t.Reclaims time) :
    (t.round stop time).Sound time := by
  unfold round
  split
  · exact sound_ended reclaims
  · split
    · exact sound_goto ready reclaims nofun nofun nofun
    · rename_i early
      refine ⟨ready, reclaims, fun _ => ?_, nofun⟩
      unfold Reclaims at reclaims
      split at reclaims
      · exact absurd reclaims early
      · rename_i r last
        exact ⟨r, last, reclaims.2, reclaims.1 ▸ not_le.mp early⟩

theorem sound_handle {messages : List (Nat × Enqueue.Fields)}
    (ready : reconnect.Ready t.delay t.failures) (reclaims : t.Reclaims time) :
    (t.handle stop time messages).Sound time := by
  cases messages with
  | nil => exact sound_round ready reclaims
  | cons => exact sound_goto ready reclaims nofun nofun nofun

/-- An outage is counted when it is caught, before the loop sleeps. -/
theorem sound_except (ready : reconnect.Ready t.delay t.failures) (reclaims : t.Reclaims time) :
    (t.except time e).Sound time := by
  cases e with
  | unavailable => exact ⟨ready.fails, reclaims, nofun, nofun⟩
  | _ => exact sound_ended reclaims

theorem Sound.step (sound : t.Sound time) (next : t.step stop time e = some t') :
    t'.Sound time := by
  obtain ⟨paced, reclaims, _, fresh⟩ := sound
  cases await : t.pc with
  | created =>
    simp only [Paced, await] at paced
    cases e <;> simp only [ShardTask.step, await] at next <;> cases next
    · refine sound_round paced ?_
      simp [Reclaims, fresh await]
    · exact sound_ended reclaims
  | reclaimStale =>
    simp only [Paced, await] at paced
    cases e <;> simp only [ShardTask.step, await] at next <;> cases next
    · have soon : time < time + reclaimIntervalS := by
        unfold reclaimIntervalS
        linarith
      exact ⟨paced, ⟨rfl, le_refl time⟩,
        fun _ => ⟨time, rfl, le_refl time, soon⟩, nofun⟩
    all_goals exact sound_except paced reclaims
  | xreadgroup =>
    simp only [Paced, await] at paced
    cases e <;> simp only [ShardTask.step, await] at next <;> cases next
    · exact sound_handle Backoff.ready_base reclaims
    all_goals exact sound_except paced reclaims
  | handleMessage message rest =>
    simp only [Paced, await] at paced
    cases e <;> simp only [ShardTask.step, await] at next <;> cases next
    · exact sound_handle paced reclaims
    all_goals exact sound_except paced reclaims
  | sleep =>
    simp only [Paced, await] at paced
    cases e <;> simp only [ShardTask.step, await] at next <;> cases next
    · exact sound_goto paced.passes reclaims nofun nofun nofun
    · exact sound_ended reclaims
  | ensureGroup =>
    simp only [Paced, await] at paced
    cases e <;> simp only [ShardTask.step, await] at next <;> cases next
    case cancelled.refl => exact sound_ended reclaims
    all_goals exact sound_round paced reclaims
  | ended outcome =>
    simp only [ShardTask.step, await] at next
    cases next

/-- Where a round ends the task, the process was told to stop. -/
theorem round_ended (ended : (t.round stop time).Ended) : stop = true := by
  unfold round at ended
  split at ended
  · rename_i stopped
    exact stopped
  · split at ended <;> exact ended.elim

theorem handle_ended {messages : List (Nat × Enqueue.Fields)}
    (ended : (t.handle stop time messages).Ended) : stop = true := by
  cases messages with
  | nil => exact round_ended ended
  | cons => exact ended.elim

/-- Neither an answer nor an outage ends the task while the process runs. -/
theorem step_lives (next : t.step stop time e = some t') (ended : t'.Ended) :
    stop = true ∨ e = .exception ∨ e = .cancelled := by
  cases e with
  | exception => exact Or.inr (Or.inl rfl)
  | cancelled => exact Or.inr (Or.inr rfl)
  | answers messages =>
    left
    cases await : t.pc <;> simp only [ShardTask.step, await] at next <;> cases next
    case created.refl | ensureGroup.refl => exact round_ended ended
    case xreadgroup.refl | handleMessage.refl => exact handle_ended ended
    all_goals exact (show False from ended).elim
  | unavailable =>
    left
    cases await : t.pc <;> simp only [ShardTask.step, await] at next <;> cases next
    case ensureGroup.refl => exact round_ended ended
    all_goals exact (show False from ended).elim

end ShardTask

namespace Supervisor

variable {s s' : Supervisor} {n : Nat}

def AllSound (s : Supervisor) : Prop := ∀ t ∈ s.created, t.Sound s.clock

theorem AllSound.spawn {shard : Nat} (sound : s.AllSound) : (s.spawn shard).AllSound := by
  intro t listed
  rcases List.mem_append.mp listed with old | new
  · exact sound t old
  · rw [List.mem_singleton.mp new]
    exact ShardTask.sound_create shard s.clock

theorem AllSound.restart {entry : Nat × Nat} (sound : s.AllSound) :
    (s.restart entry).AllSound := by
  unfold Supervisor.restart
  simp only
  split
  · exact sound
  · exact AllSound.spawn sound

theorem AllSound.again (sound : s.AllSound) : s.again.AllSound := by
  unfold Supervisor.again
  split <;> exact sound

theorem allSound_start (clock : ℚ) (stop : Bool) : (superviseShards n clock stop).AllSound := by
  have spawned : ∀ (shards : List Nat) (s : Supervisor), s.AllSound →
      (shards.foldl Supervisor.spawn s).AllSound := by
    intro shards
    induction shards with
    | nil => exact fun _ sound => sound
    | cons shard rest ih => exact fun s sound => ih _ sound.spawn
  exact (spawned _ _ (fun _ listed => absurd listed List.not_mem_nil)).again

theorem AllSound.step {l : Label} (sound : s.AllSound) (next : Supervisor.step l s = some s') :
    s'.AllSound := by
  cases l with
  | tick time =>
    simp only [Supervisor.step] at next
    split at next <;> cases next
    rename_i later
    exact fun t listed => (sound t listed).later later
  | stop =>
    cases next
    exact sound
  | run task e =>
    simp only [Supervisor.step] at next
    split at next
    · cases next
    · rename_i t found
      split at next
      · cases next
      · split at next <;> cases next
        rename_i t' moved
        intro u listed
        rcases List.mem_or_eq_of_mem_set listed with old | rfl
        · exact sound u old
        · exact (sound t (List.mem_of_getElem? found)).step moved
  | wake done =>
    simp only [Supervisor.step] at next
    split at next
    · split at next
      · cases next
        exact sound
      · split at next <;> cases next
        have restarted : ∀ (done : List (Nat × Nat)) (s : Supervisor), s.AllSound →
            (done.foldl Supervisor.restart s).AllSound := by
          intro done
          induction done with
          | nil => exact fun _ sound => sound
          | cons entry rest ih => exact fun s sound => ih _ sound.restart
        exact (restarted done s sound).again
    · cases next
  | cancel =>
    simp only [Supervisor.step] at next
    split at next <;> cases next
    exact sound
  | gathered =>
    simp only [Supervisor.step] at next
    split at next
    · split at next <;> cases next
      exact sound
    · cases next

/-- Of every task that the process ever had: at the first outage since its last
answered read it sleeps half a second, at each further one twice as long, ten
seconds at most; it reads less than 30 seconds after a reclaim pass; and while
the process runs, neither an answer nor an outage ends it. -/
theorem shard_loop {clock : ℚ} {stop : Bool} {i : Nat} {t : ShardTask}
    (run : Run Supervisor.step (fun _ _ => True) (superviseShards n clock stop) s)
    (created : s.created[i]? = some t) :
    (t.pc = .sleep → 0 < t.failures ∧ t.delay = min (1 / 2 * 2 ^ (t.failures - 1)) 10) ∧
      (t.pc = .xreadgroup → ∃ reclaimed, t.reclaimedAt = some reclaimed ∧
        reclaimed ≤ t.calledAt ∧ t.calledAt < reclaimed + 30) ∧
      ∀ e t', t.step s.stop s.clock e = some t' → t'.Ended →
        s.stop = true ∨ e = .exception ∨ e = .cancelled := by
  have all : s.AllSound := run.invariant (I := AllSound) (allSound_start clock stop)
    (fun sound _ next => sound.step next)
  have sound := all t (List.mem_of_getElem? created)
  refine ⟨fun asleep => ?_, sound.reads, fun e t' => ShardTask.step_lives⟩
  have paced := sound.paced
  simp only [ShardTask.Paced, asleep] at paced
  exact paced

/-- Two outages in a row. -/
theorem shard_loop_outage : ∃ s t,
    Run Supervisor.step (fun _ _ => True) (superviseShards 1 0 false) s ∧
      s.created[0]? = some t ∧ t.pc = .sleep ∧ t.failures = 2 ∧ t.delay = 1 := by
  have evaluates : (exec Supervisor.step (fun _ _ => true)
      [.run 0 (.answers []), .run 0 .unavailable, .run 0 (.answers []), .run 0 .unavailable,
        .run 0 .unavailable] (superviseShards 1 0 false)).elim false (fun s =>
          s.created[0]?.any (fun t => decide (t.pc = .sleep ∧ t.failures = 2))) = true := by
    decide +kernel
  obtain ⟨s, executed, passes⟩ := reached evaluates
  obtain ⟨t, created, sleeps⟩ := (Option.any_eq_true _ _).mp passes
  obtain ⟨asleep, failures⟩ := of_decide_eq_true sleeps
  have run : Run Supervisor.step (fun _ _ => True) (superviseShards 1 0 false) s :=
    run_of_exec (fun _ _ _ => trivial) executed
  refine ⟨s, t, run, created, asleep, failures, ?_⟩
  rw [((shard_loop run created).1 asleep).2, failures]
  norm_num

end Supervisor

end Relay.Shards
