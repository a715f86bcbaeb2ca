import Relay.Pipeline.Rounds
import Relay.Pipeline.Schedule

/-!
# No delivery is attempted too often

Across any number of workers, retries, crashes and reclaims, a delivery is
attempted as often as its row counts, at most as often as is configured, and
never again once the row is settled. Only a worker that dies in the middle of an
attempt, or a replay, makes for another one.
-/

namespace Relay.World

open Worker Transition

variable {env : Env} {l : Label} {x y : World} {id : Uuid}

/-- All that is kept along a careful run: every delivery is in a sound round. -/
structure Rounded (env : Env) (x : World) : Prop where
  held : Ingesting env x
  current : CopiesCurrent x
  timed : OutcomesTimed x
  left : Unspent env x
  follows : ∀ id row, x.core.delivery id = some row →
    ∃ r, Follows x id r ∧ r.Sound env.settings.maxAttempts

theorem rounded_initial (env : Env) (shardOf : Nat → Nat) : Rounded env (initial shardOf) where
  held := ingesting_initial env shardOf
  current := fun _ _ _ handles => nomatch handles
  timed := fun _ _ _ _ _ _ handles => nomatch handles
  left := fun _ _ _ _ _ _ handles => nomatch handles
  follows := fun _ _ found => nomatch found

theorem Rounded.step (rounded : Rounded env x) (careful : Careful x l)
    (next : World.step env l x = some y) : Rounded env y := by
  obtain ⟨held, current, timed, left, follows⟩ := rounded
  have change := step_change next
  refine ⟨held.step careful.sole careful.released careful.ingests next, current.step held change,
    timed.step change, left.step change, fun id row found => ?_⟩
  cases before : x.core.delivery id with
  | some row' =>
    obtain ⟨r, on, sound⟩ := follows id row' before
    obtain ⟨r', step, on'⟩ := on.step held current timed left careful next
    exact ⟨r', on', sound.step step⟩
  | none =>
    by_cases working : ∃ w c, l = .work w c
    · obtain ⟨w, c, rfl⟩ := working
      cases change with
      | admin label => exact label.elim
      | drop label => rcases label with same | same <;> cases same
      | work _ _ _ move => exact nomatch (move.phases.absent before).symm.trans found
    · have other : ∀ w c, l ≠ .work w c := fun w c same => working ⟨w, c, same⟩
      cases change.row held.inv id with
      | same same => exact nomatch (same.trans before).symm.trans found
      | delivering label | outcome label => exact absurd label (other _ _)
      | requeued _ running job => exact absurd job (held.only.unselected running)
      | inserted _ now pending =>
        exact Follows.first held careful change other before now pending

/-- A delivery is attempted no more often than its row counts, and that is no more
than the configured maximum. From a settled row on it is never attempted again,
and the row stays as it is. -/
theorem attempts_bounded {shardOf : Nat → Nat} {row : Delivery}
    (run : Run (World.step env) Careful (initial shardOf) x)
    (found : x.store.db.delivery id = some row) :
    x.attemptsAt id ≤ row.attemptCount ∧ row.attemptCount ≤ x.attemptsAt id + 1 ∧
      row.attemptCount ≤ max 1 env.settings.maxAttempts ∧
      (row.status.Settled → x.attemptsAt id = row.attemptCount ∧
        ∀ y, Run (World.step env) Careful x y →
          y.store.db.delivery id = some row ∧ y.attemptsAt id = x.attemptsAt id) := by
  have rounded : Rounded env x := run.invariant (rounded_initial env shardOf)
    (fun rounded careful next => rounded.step careful next)
  obtain ⟨r, on, sound⟩ := rounded.follows id row found
  cases on.row.symm.trans found
  have count := sound.count
  have owed : r.owed ≤ 1 := by
    unfold Round.owed
    split <;> omega
  have attempts := on.attempts
  refine ⟨by omega, by omega, sound.within, fun settled => ⟨?_, fun y more => ?_⟩⟩
  · have none : r.owed = 0 := by
      unfold Round.owed
      rw [sound.idle_of_settled settled]
      rfl
    omega
  · have stays : Rounded env y ∧ Follows y id r := by
      refine more.invariant (I := fun y => Rounded env y ∧ Follows y id r) ⟨rounded, on⟩ ?_
      rintro y l z ⟨rounded, on⟩ careful next
      obtain ⟨r', step, on'⟩ :=
        on.step rounded.held rounded.current rounded.timed rounded.left careful next
      rw [step.eq_of_settled sound settled] at on'
      exact ⟨rounded.step careful next, on'⟩
    exact ⟨stays.2.row, stays.2.attempts.trans attempts.symm⟩

/-! The retry of `retriedLate` succeeds -/

theorem careful_of_idle {n m : Nat} (untouched : Untouched n m x)
    (checked : (plain n x l && letsGoIdle x l) = true) : Careful x l := by
  obtain ⟨first, second⟩ := Bool.and_eq_true_iff.mp checked
  obtain ⟨ingests, _, released⟩ := plain_sound untouched first
  refine ⟨ingests, released, (letsGoIdle_sound second).sole, fun w h label handles => ?_⟩
  unfold Handles at handles
  rcases label with rfl | rfl <;> simp [letsGoIdle, handles] at second

def delivered : List Label := retriedLate ++ works 1 8 succeeding

theorem attempts_bounded_retried : ∃ x y : World, ∃ row,
    Run (World.step headerless) Careful (initial (fun _ => 3)) x ∧
      x.store.db.delivery 11 = some row ∧ row.status = .delivered ∧ row.attemptCount = 2 ∧
      x.attemptsAt 11 = 2 ∧ Run (World.step headerless) Careful x y ∧ y.clock = 200 ∧
      y.store.db.delivery 11 = some row ∧ y.attemptsAt 11 = x.attemptsAt 11 := by
  have evaluates : (exec (World.step headerless) (fun x l => plain 3 x l && letsGoIdle x l)
      delivered (initial (fun _ => 3))).elim false (fun x =>
        decide (x.store.db.delivery 11 = some ⟨11, 10, 1, .delivered, 2, none⟩) &&
        (exec (World.step headerless) (fun x l => plain 3 x l && letsGoIdle x l)
          [.tick 200, .schedule 200 500] x).elim false (fun y => decide (y.clock = 200))) =
      true := by
    decide +kernel
  obtain ⟨x, executed, passes⟩ := reached evaluates
  obtain ⟨found, rest⟩ := Bool.and_eq_true_iff.mp passes
  obtain ⟨y, executed', late⟩ := reached rest
  have row := of_decide_eq_true found
  have sound : ∀ {x l}, Untouched 3 1 x → Within 3 1 l = true →
      (plain 3 x l && letsGoIdle x l) = true → Careful x l :=
    fun untouched _ => careful_of_idle untouched
  have run := schedule_run (untouched_initial 3 1 _) (by decide) sound executed
  have more := (schedule_run run.2 (by decide) sound executed').1
  have bounded := (attempts_bounded run.1 row).2.2.2 (Or.inl rfl)
  exact ⟨x, y, _, run.1, row, rfl, rfl, bounded.1, more, of_decide_eq_true late,
    bounded.2 y more⟩

end Relay.World
