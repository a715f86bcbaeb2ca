import Relay.Agent.Trigger
import Relay.Delivery.BreakerHistory
import Relay.Lib.Transition

/-!
# What a failure streak publishes

The script announces transitions, `record_outcome` the fifth failure of a breaker
that is still closed. Between them no streak goes unnoticed by the agent.
-/

namespace Relay.CircuitBreaker.Watched

open Transition Agent.Trigger

variable {x y : Watched} {c : Call} {endpointId : Uuid}

def announcesStreak : BreakerEvent → Bool
  | .consecutiveFailures .. => true
  | .transition .. => false

/-- What has been published since the last success or reset. -/
structure Notified (x : Watched) : Prop where
  consecutive : x.breaker.consecutive.getD 0 = x.streak
  once : (x.events.filter announcesStreak).length ≤ if 5 ≤ x.streak then 1 else 0
  notified : 5 ≤ x.streak ∨ x.breaker.current ≠ .closed →
    ∃ e ∈ x.events, (triggeredBy e).isSome = true

/-- A closed breaker without a streak owes no message. -/
theorem notified_rested (consecutive : x.breaker.consecutive.getD 0 = 0) (streak : x.streak = 0)
    (closed : x.breaker.current = .closed) (events : x.events = []) : x.Notified where
  consecutive := consecutive.trans streak.symm
  once := by
    rw [events]
    exact Nat.zero_le _
  notified := fun due => by
    rcases due with fifth | broken
    · omega
    · exact absurd closed broken

/-- The state and the messages of a recorded failure. -/
theorem messages_failure (endpointId : Uuid) (before : BreakerState) (o : Outcome) (now : ℚ) :
    messages endpointId before false o now =
      transitionEvent endpointId before o now ++
        if o.consecutive = 5 ∧ o.state = .closed then
          [.consecutiveFailures endpointId o.consecutive now]
        else [] := by
  unfold messages
  congr 1
  by_cases due : o.consecutive = 5 ∧ o.state = .closed
  · rw [if_pos due, if_pos ⟨rfl, due⟩]
  · rw [if_neg due, if_neg (fun triggers => due triggers.2)]

theorem transitionEvent_quiet (endpointId : Uuid) (before : BreakerState)
    (o : Outcome) (now : ℚ) :
    (transitionEvent endpointId before o now).filter announcesStreak = [] := by
  unfold transitionEvent
  split <;> rfl

/-- A failure that opens a closed breaker is announced by the script. -/
theorem transitionEvent_opened {b : Breaker} {clock now : ℚ} {member : Uuid}
    (closed : b.current = .closed)
    (opened : (recordOutcomeLua b clock now false member).2.state ≠ .closed) :
    ∃ e ∈ transitionEvent endpointId b.current (recordOutcomeLua b clock now false
      member).2 now,
      (triggeredBy e).isSome = true := by
  have current := recordOutcomeLua_current b clock now false member
  have opens : (recordOutcomeLua b clock now false member).2.state = .opened := by
    rw [← current] at opened ⊢
    cases recordOutcomeLua_records b clock now false member with
    | keeps same =>
      rw [same, closed] at opened
      exact absurd rfl opened
    | opens _ _ after => exact after
    | closes succeeded => cases succeeded
  have moved : (recordOutcomeLua b clock now false member).2.transitioned = true :=
    decide_eq_true (fun same => opened (Eq.trans same closed))
  refine ⟨.transition endpointId b.current (recordOutcomeLua b clock now false member).2.state now
    (recordOutcomeLua b clock now false member).2.consecutive, ?_, ?_⟩
  · rw [transitionEvent, if_pos moved]
    exact List.mem_singleton.mpr rfl
  · rw [triggeredBy, if_pos opens]
    rfl

/-- The counter that a failure returns, and the one that it leaves. -/
theorem recordOutcomeLua_consecutive (b : Breaker) (clock now : ℚ) (member : Uuid) :
    (recordOutcomeLua b clock now false member).2.consecutive = b.consecutive.getD 0 + 1 ∧
      (recordOutcomeLua b clock now false member).1.consecutive =
        some (b.consecutive.getD 0 + 1) := by
  refine ⟨rfl, ?_⟩
  cases recordOutcomeLua_counts b clock now false member with
  | closes succeeded => cases succeeded
  | counts _ _ _ consecutive => exact consecutive

theorem Notified.fail (notified : x.Notified) {clock now : ℚ} {member : Uuid}
    (next : step endpointId (.recordOutcome clock now false member) x = some y) : y.Notified := by
  obtain ⟨returned, left⟩ := recordOutcomeLua_consecutive x.breaker clock now member
  have current := recordOutcomeLua_current x.breaker clock now false member
  rw [notified.consecutive] at returned left
  cases next
  refine ⟨?_, ?_, ?_⟩
  · rw [left]
    rfl
  · have before := notified.once
    simp only [Bool.false_eq_true, if_false, List.filter_append, List.length_append,
      messages_failure, transitionEvent_quiet, List.length_nil, returned]
    by_cases fifth : x.streak + 1 = 5 ∧
        (recordOutcomeLua x.breaker clock now false member).2.state = .closed
    · rw [if_neg (by omega)] at before
      rw [if_pos fifth, if_pos (by omega)]
      rw [List.filter_cons_of_pos rfl, List.filter_nil, List.length_singleton]
      omega
    · rw [if_neg fifth, List.filter_nil, List.length_nil]
      by_cases earlier : 5 ≤ x.streak
      · rw [if_pos earlier] at before
        rw [if_pos (by omega)]
        omega
      · rw [if_neg earlier] at before
        omega
  · intro due
    simp only [Bool.false_eq_true, if_false] at due ⊢
    by_cases known : 5 ≤ x.streak ∨ x.breaker.current ≠ .closed
    · obtain ⟨e, published, asks⟩ := notified.notified known
      exact ⟨e, List.mem_append_left _ published, asks⟩
    · obtain ⟨short, closed⟩ := not_or.mp known
      by_cases opened : (recordOutcomeLua x.breaker clock now false member).2.state = .closed
      · have fifth : x.streak + 1 = 5 := by
          rcases due with fifth | broken
          · omega
          · rw [current] at broken
            exact absurd opened broken
        refine ⟨.consecutiveFailures endpointId (x.streak + 1) now,
          List.mem_append_right _ ?_, rfl⟩
        rw [messages_failure, returned, if_pos ⟨fifth, opened⟩]
        exact List.mem_append_right _ (List.mem_singleton.mpr rfl)
      · obtain ⟨e, published, asks⟩ := transitionEvent_opened (not_not.mp closed) opened
        exact ⟨e, List.mem_append_right _ (List.mem_append_left _ published), asks⟩

/-- Asking for permission publishes nothing, and only a broken breaker is changed. -/
theorem Notified.allow (notified : x.Notified) (now : ℚ) :
    Notified { x with breaker := (allowRequestLua x.breaker now).1, latest := some now } := by
  obtain ⟨_, _, consecutive⟩ := allowRequestLua_keeps x.breaker now
  refine ⟨by rw [consecutive]; exact notified.consecutive, notified.once, fun due => ?_⟩
  rcases due with fifth | broken
  · exact notified.notified (Or.inl fifth)
  · refine notified.notified (Or.inr (fun closed => ?_))
    cases allowRequestLua_allows x.breaker now with
    | allowed _ same =>
      rw [same] at broken
      exact broken closed
    | denied before => exact before closed
    | probes opened =>
      rw [closed] at opened
      cases opened

/-- After a success nothing is left to announce. -/
theorem Notified.succeed {clock now : ℚ} {member : Uuid}
    (next : step endpointId (.recordOutcome clock now true member) x = some y) : y.Notified := by
  have closed := recordOutcomeLua_success x.breaker clock now member
  have counts := recordOutcomeLua_counts x.breaker clock now true member
  cases next
  refine notified_rested ?_ rfl closed rfl
  cases counts with
  | closes _ _ _ _ consecutive =>
    rw [consecutive]
    rfl
  | counts _ _ _ consecutive =>
    rw [consecutive]
    rfl

theorem Notified.step (notified : x.Notified) (next : step endpointId c x = some y) :
    y.Notified := by
  cases c with
  | allowRequest now =>
    cases next
    exact notified.allow now
  | recordOutcome clock now success member =>
    cases success with
    | true => exact Notified.succeed next
    | false => exact notified.fail next
  | reset =>
    cases next
    exact notified_rested rfl rfl rfl rfl

/-- At most one announcement of five failures between two successes or resets,
and one message to act on once there are five failures or the breaker has opened. -/
theorem streak_notified (run : Run (Watched.step endpointId) (fun _ _ => True) initial x) :
    (x.events.filter announcesStreak).length ≤ 1 ∧
      (5 ≤ x.streak ∨ x.breaker.current ≠ .closed →
        ∃ e ∈ x.events, (triggeredBy e).isSome = true) := by
  have notified : x.Notified := run.invariant (I := Notified) (notified_rested rfl rfl rfl rfl)
    (fun notified _ next => notified.step next)
  refine ⟨le_trans notified.once ?_, notified.notified⟩
  split
  · exact Nat.le_refl 1
  · exact Nat.zero_le 1

/-- Ten failures in a row: one announcement of the fifth, and the transition. -/
theorem streak_notified_ten : ∃ x : Watched,
    Run (Watched.step 1) (fun _ _ => True) initial x ∧ x.streak = 10 ∧ x.events.length = 2 ∧
      (x.events.filter announcesStreak).length ≤ 1 ∧
      ∃ e ∈ x.events, (triggeredBy e).isSome = true := by
  have evaluates : (exec (Watched.step 1) (fun _ _ => true) Observed.tripped initial).elim false
      (fun x => decide (x.streak = 10 ∧ x.events.length = 2)) = true := by
    decide +kernel
  obtain ⟨x, executed, passes⟩ := reached evaluates
  obtain ⟨streak, events⟩ := of_decide_eq_true passes
  have run := run_of_exec (fun _ _ _ => trivial) executed
  obtain ⟨once, notified⟩ := streak_notified run
  exact ⟨x, run, streak, events, once, notified (Or.inl (by omega))⟩

end Relay.CircuitBreaker.Watched
