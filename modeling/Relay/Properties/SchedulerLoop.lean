import Relay.Properties.NoStarvation

/-!
# What a scheduler does between its polls

It drains a burst without a pause, backs off while the store is out of reach,
and goes on until it is told to stop.
-/

namespace Relay.RetryScheduler

open RetryQueue Transition

namespace Scheduler

variable {c : Scheduler} {time : ℚ} {moved : Nat}

/-- What a poll has found, as long as its number is at hand. -/
def Drained (c : Scheduler) : Prop :=
  match c.pc with
  | .retryQueueDepth moved | .refreshGauges moved => moved < batchLimit → c.leftDue = 0
  | .pause => c.leftDue = 0
  | _ => True

/-- The delay fits the outages that were caught. -/
def Paced (c : Scheduler) : Prop :=
  match c.pc with
  | .sleep => reconnect.Waits c.delay c.failures
  | .close | .ended => True
  | _ => reconnect.Ready c.delay c.failures

structure Sound (c : Scheduler) : Prop where
  paced : c.Paced
  drained : c.Drained
  stops : c.pc = .close → c.stop = true

theorem sound_ended (c : Scheduler) : Sound { c with pc := .ended } := ⟨trivial, trivial, nofun⟩

theorem sound_round (ready : reconnect.Ready c.delay c.failures) : (c.round time).Sound := by
  unfold round
  split
  · rename_i stopped
    exact ⟨trivial, trivial, fun _ => stopped⟩
  · exact ⟨ready, trivial, nofun⟩

theorem sound_rest (ready : reconnect.Ready c.delay c.failures)
    (left : moved < batchLimit → c.leftDue = 0) : (c.rest time moved).Sound := by
  unfold rest
  split
  · rename_i part
    exact ⟨ready, left part, nofun⟩
  · exact sound_round ready

theorem sound_polled (left : moved < batchLimit → c.leftDue = 0) :
    (c.polled time moved).Sound := by
  unfold polled
  simp only
  split
  · exact ⟨Backoff.ready_base, left, nofun⟩
  · exact sound_rest Backoff.ready_base left

/-- An outage is counted when it is caught, before the loop sleeps. -/
theorem sound_except (ready : reconnect.Ready c.delay c.failures) (e : Ending) :
    (c.except e).Sound := by
  cases e with
  | unavailable => exact ⟨ready.fails, trivial, nofun⟩
  | _ => exact sound_ended c

/-- Where a round ends the loop, the process was told to stop. -/
theorem round_pc (c : Scheduler) (time : ℚ) : (c.round time).pc ≠ .ended := by
  unfold round
  split <;> exact nofun

theorem rest_pc (c : Scheduler) (time : ℚ) (moved : Nat) : (c.rest time moved).pc ≠ .ended := by
  unfold rest
  split
  · exact nofun
  · exact round_pc c time

theorem polled_pc (c : Scheduler) (time : ℚ) (moved : Nat) :
    (c.polled time moved).pc ≠ .ended := by
  unfold polled
  simp only
  split
  · exact nofun
  · exact rest_pc _ _ _

end Scheduler

namespace System

variable {x y : System} {l : Label} {i : Nat} {c : Scheduler} {e : Ending}

/-- A script that moves less than a batch leaves nothing due. -/
theorem move_drains (x : System) (now : ℚ) (part : (x.move now).2 < batchLimit) :
    (due (x.move now).1.queues now).length = 0 := by
  have moves := Queues.moves x.queues now batchLimit
  have count : (x.queues.retries.lowestUpTo memberLe now batchLimit).length = (x.move now).2 :=
    (List.length_map Prod.fst).symm
  exact congrArg List.length (moves.none_left (count ▸ part))

variable (x i e) in
/-- The scheduler that a poll leaves. -/
theorem poll_sound (now : ℚ) (ready : reconnect.Ready c.delay c.failures) :
    ∃ c', (x.poll i c now e).schedulers = Function.update x.schedulers i (some c') ∧
      c'.Sound ∧
      (c'.pc = .ended → e = .exception ∨ e = .cancelled) := by
  cases e with
  | answers =>
    refine ⟨_, rfl, ?_, ?_⟩
    · split
      · exact Scheduler.sound_polled (move_drains x now)
      · exact ⟨ready, move_drains x now, nofun⟩
    · split
      · exact fun ended => absurd ended (Scheduler.polled_pc _ _ _)
      · exact nofun
  | unavailable executed =>
    cases executed with
    | true => exact ⟨_, rfl, ⟨ready.fails, trivial, nofun⟩, nofun⟩
    | false => exact ⟨_, rfl, ⟨ready.fails, trivial, nofun⟩, nofun⟩
  | exception => exact ⟨_, rfl, Scheduler.sound_ended c, fun _ => Or.inl rfl⟩
  | cancelled => exact ⟨_, rfl, Scheduler.sound_ended c, fun _ => Or.inr rfl⟩

/-- One await of a scheduler. -/
theorem stepScheduler_sound (sound : c.Sound) (next : x.stepScheduler i c e = some y) :
    ∃ c', y.schedulers = Function.update x.schedulers i (some c') ∧ c'.Sound ∧
      (c'.pc = .ended → c.stop = true ∨ e = .exception ∨ e = .cancelled) := by
  obtain ⟨paced, drained, stops⟩ := sound
  have excepted : (c.except e).pc = .ended → e ≠ .answers → e = .exception ∨
      e = .cancelled := by
    intro ended failed
    cases e with
    | answers => exact absurd rfl failed
    | unavailable => cases ended
    | exception => exact Or.inl rfl
    | cancelled => exact Or.inr rfl
  unfold Scheduler.Drained at drained
  unfold Scheduler.Paced at paced
  cases await : c.pc with
  | moveDueToStreams now =>
    rw [await] at paced
    simp only [stepScheduler, await] at next
    cases next
    obtain ⟨c', schedulers, sound', ends⟩ := poll_sound x i e now paced
    exact ⟨c', schedulers, sound', fun ended => Or.inr (ends ended)⟩
  | retryQueueDepth moved =>
    rw [await] at drained paced
    cases e <;> simp only [stepScheduler, await] at next <;> cases next
    · exact ⟨_, rfl, Scheduler.sound_polled drained,
        fun ended => absurd ended (Scheduler.polled_pc _ _ _)⟩
    all_goals exact ⟨_, rfl, Scheduler.sound_except paced _, fun ended =>
      Or.inr (excepted ended nofun)⟩
  | refreshGauges moved =>
    rw [await] at drained paced
    cases e <;> simp only [stepScheduler, await] at next <;> cases next
    · exact ⟨_, rfl, Scheduler.sound_rest paced drained,
        fun ended => absurd ended (Scheduler.rest_pc _ _ _)⟩
    all_goals exact ⟨_, rfl, Scheduler.sound_except paced _, fun ended =>
      Or.inr (excepted ended nofun)⟩
  | pause =>
    rw [await] at paced
    cases e <;> simp only [stepScheduler, await] at next <;> cases next
    · exact ⟨_, rfl, Scheduler.sound_round paced,
        fun ended => absurd ended (Scheduler.round_pc _ _)⟩
    · exact ⟨_, rfl, Scheduler.sound_ended c, fun _ => Or.inr (Or.inr rfl)⟩
  | sleep =>
    rw [await] at paced
    cases e <;> simp only [stepScheduler, await] at next <;> cases next
    · exact ⟨_, rfl, Scheduler.sound_round paced.passes,
        fun ended => absurd ended (Scheduler.round_pc _ _)⟩
    · exact ⟨_, rfl, Scheduler.sound_ended c, fun _ => Or.inr (Or.inr rfl)⟩
  | close =>
    simp only [stepScheduler, await] at next
    cases next
    exact ⟨_, rfl, Scheduler.sound_ended c, fun _ => Or.inl (stops await)⟩
  | ended =>
    simp only [stepScheduler, await] at next
    cases next

def AllSound (x : System) : Prop := ∀ i c, x.schedulers i = some c → c.Sound

theorem AllSound.update {c' : Scheduler} (sound : x.AllSound) (sound' : c'.Sound)
    (schedulers : y.schedulers = Function.update x.schedulers i (some c')) : y.AllSound := by
  intro j d found
  rw [schedulers] at found
  by_cases same : j = i
  · subst same
    rw [Function.update_self] at found
    exact Option.some.inj found ▸ sound'
  · rw [Function.update_of_ne same] at found
    exact sound j d found

theorem AllSound.step (sound : x.AllSound) (next : System.step l x = some y) : y.AllSound := by
  cases l with
  | tick time =>
    simp only [System.step] at next
    split at next <;> cases next
    exact sound
  | start i =>
    simp only [System.step] at next
    split at next <;> cases next
    exact sound.update (Scheduler.sound_round Backoff.ready_base) rfl
  | stop i =>
    obtain ⟨c, found, rfl⟩ := Option.map_eq_some_iff.mp next
    obtain ⟨paced, drained, _⟩ := sound i c found
    have stopped : Scheduler.Sound { c with stop := true } := ⟨paced, drained, fun _ => rfl⟩
    exact sound.update stopped rfl
  | scheduleRetry | removeFromRetryQueue =>
    cases next
    exact sound
  | run i e =>
    obtain ⟨c, found, next⟩ := Option.bind_eq_some_iff.mp next
    obtain ⟨c', schedulers, sound', _⟩ := stepScheduler_sound (sound i c found) next
    exact sound.update sound' schedulers

/-- A scheduler pauses only when its last script left no member due; at the first
outage since its last answered poll it waits half a second, at each further one
twice as long, ten seconds at most; and neither an answer nor an outage ends it
before it is told to stop. -/
theorem scheduler_loop {queues : Queues}
    (run : Run System.step (fun _ _ => True) (initial queues) x)
    (running : x.schedulers i = some c) :
    (c.pc = .pause → c.leftDue = 0) ∧
      (c.pc = .sleep → 0 < c.failures ∧ c.delay = min (1 / 2 * 2 ^ (c.failures - 1)) 10) ∧
      ∀ e y c', System.step (.run i e) x = some y → y.schedulers i = some c' →
        c'.pc = .ended →
        c.stop = true ∨ e = .exception ∨ e = .cancelled := by
  have all : x.AllSound := run.invariant (I := AllSound) (fun _ _ found => by cases found)
    (fun sound _ next => sound.step next)
  have sound := all i c running
  refine ⟨fun paused => ?_, fun asleep => ?_, fun e y c' next found ended => ?_⟩
  · have drained := sound.drained
    unfold Scheduler.Drained at drained
    rw [paused] at drained
    exact drained
  · have paced := sound.paced
    unfold Scheduler.Paced at paced
    rw [asleep] at paced
    exact paced
  · obtain ⟨d, here, next⟩ := Option.bind_eq_some_iff.mp next
    cases running.symm.trans here
    obtain ⟨c'', schedulers, _, ends⟩ := stepScheduler_sound sound next
    rw [schedulers, Function.update_self] at found
    cases found
    exact ends ended

/-- The burst takes two polls, with the depth and the gauges in between. -/
theorem scheduler_loop_burst : ∃ x c,
    Run System.step (fun _ _ => True) (initial burst) x ∧ x.schedulers 0 = some c ∧
      c.pc = .pause ∧ x.pollsAfter 0 = 2 ∧ c.leftDue = 0 := by
  have evaluates : (exec System.step (fun _ _ => true)
      (.start 0 :: List.replicate 5 (.run 0 .answers)) (initial burst)).elim false (fun x =>
        (x.schedulers 0).any (fun c => decide (c.pc = .pause ∧ x.pollsAfter 0 = 2))) = true := by
    decide +kernel
  obtain ⟨x, executed, passes⟩ := reached evaluates
  obtain ⟨c, running, paused⟩ := (Option.any_eq_true _ _).mp passes
  obtain ⟨atPause, twice⟩ := of_decide_eq_true paused
  have run : Run System.step (fun _ _ => True) (initial burst) x :=
    run_of_exec (fun _ _ _ => trivial) executed
  exact ⟨x, c, run, running, atPause, twice, (scheduler_loop run running).1 atPause⟩

end System

end Relay.RetryScheduler
