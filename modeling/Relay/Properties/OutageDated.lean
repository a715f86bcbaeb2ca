import Relay.Delivery.BreakerCalls
import Relay.Lib.Transition

/-!
# Does `opened_at` date the whole outage?

It is written whenever the breaker enters open, and a probe that fails re-enters
it. So it dates the outage as long as no failure is recorded in half_open.
-/

namespace Relay.CircuitBreaker.Observed

open Transition

variable {o o' : Observed} {c : Call}

/-- The call records a failure while a probe is in flight. -/
def ProbeFails (o : Observed) : Call → Prop
  | .recordOutcome _ _ success _ => o.breaker.current = .halfOpen ∧ success = false
  | _ => False

instance (o : Observed) (c : Call) : Decidable (o.ProbeFails c) :=
  match c with
  | .recordOutcome _ _ success _ =>
    inferInstanceAs (Decidable (o.breaker.current = .halfOpen ∧ success = false))
  | .allowRequest _ | .reset => isFalse id

/-- The time of the most recent transition out of closed is noted, as `opened_at`. -/
structure Dated (o : Observed) : Prop where
  noted : o.breaker.current ≠ .closed → o.outSince.isSome
  same : o.breaker.current ≠ .closed → o.breaker.openedAt = o.outSince
  closed : o.breaker.current = .closed → o.outSince = none

theorem dated_initial : Dated initial where
  noted := fun h => absurd rfl h
  same := fun h => absurd rfl h
  closed := fun _ => rfl

theorem notClosedSince_closed {before after : Breaker} {now : ℚ} {since : Option ℚ}
    (closed : after.current = .closed) : notClosedSince before after now since = none :=
  if_pos closed

theorem notClosedSince_left {before after : Breaker} {now : ℚ} {since : Option ℚ}
    (broken : after.current ≠ .closed) (closed : before.current = .closed) :
    notClosedSince before after now since = some now := by
  rw [notClosedSince, if_neg broken, if_pos closed]

theorem notClosedSince_kept {before after : Breaker} {now : ℚ} {since : Option ℚ}
    (broken : after.current ≠ .closed) (earlier : before.current ≠ .closed) :
    notClosedSince before after now since = since := by
  rw [notClosedSince, if_neg broken, if_neg earlier]

/-- A change that does not touch `opened_at` of a broken breaker. -/
theorem Dated.kept (inv : Dated o) {after : Breaker} {now : ℚ} {latest : Option ℚ}
    {probes : List ℚ} {probing : Bool} (current : after.current = .closed ↔
      o.breaker.current = .closed) (openedAt : after.openedAt = o.breaker.openedAt) :
    Dated ⟨after, latest, notClosedSince o.breaker after now o.outSince, probes, probing⟩ where
  noted := fun broken => by
    have earlier : o.breaker.current ≠ .closed := fun h => broken (current.mpr h)
    simp only [notClosedSince_kept broken earlier]
    exact inv.noted earlier
  same := fun broken => by
    have earlier : o.breaker.current ≠ .closed := fun h => broken (current.mpr h)
    simp only [notClosedSince_kept broken earlier, openedAt]
    exact inv.same earlier
  closed := fun closed => notClosedSince_closed closed

theorem Dated.step (inv : Dated o) (passes : ¬ o.ProbeFails c) (next : step c o = some o') :
    Dated o' := by
  cases c with
  | allowRequest now =>
    cases next
    have allows := allowRequestLua_allows o.breaker now
    generalize allowRequestLua o.breaker now = a at allows
    cases allows with
    | allowed _ same | denied _ same => exact inv.kept (by rw [same]) (by rw [same])
    | probes opened _ current openedAt =>
      refine inv.kept ?_ openedAt
      rw [current, opened]
      decide
  | recordOutcome clock now success member =>
    cases next
    have records := recordOutcomeLua_records o.breaker clock now success member
    generalize recordOutcomeLua o.breaker clock now success member = a at records
    cases records with
    | keeps current _ openedAt => exact inv.kept (by rw [current]) openedAt
    | closes _ _ closed =>
      exact ⟨fun h => absurd closed h, fun h => absurd closed h,
        fun h => notClosedSince_closed h⟩
    | opens failure before current openedAt =>
      have closed : o.breaker.current = .closed := by
        cases state : o.breaker.current with
        | closed => rfl
        | opened => exact absurd state before
        | halfOpen => exact absurd ⟨state, failure⟩ passes
      have broken : a.1.current ≠ .closed := by
        rw [current]
        decide
      have since : notClosedSince o.breaker a.1 now o.outSince = some now :=
        notClosedSince_left broken closed
      refine ⟨fun _ => ?_, fun _ => ?_, fun h => absurd h broken⟩
      · simp only [since, Option.isSome_some]
      · simp only [since, openedAt]
  | reset =>
    cases next
    exact ⟨fun h => absurd rfl h, fun h => absurd rfl h, fun _ => rfl⟩

/-- Until a probe fails, `opened_at` dates the outage, and auto-disable comes
exactly when the outage is 72 hours old. -/
theorem outage_dated (run : Run step (fun o c => ¬ o.ProbeFails c) initial o) :
    (o.breaker.current ≠ .closed → ∃ t, o.outSince = some t ∧ o.breaker.openedAt = some t)
    ∧
      ∀ now, shouldAutoDisable o.breaker now = true ↔
        ∃ t, o.outSince = some t ∧ autoDisableAfterSeconds ≤ now - t := by
  have inv : Dated o := run.invariant dated_initial (fun inv passes next => inv.step passes next)
  refine ⟨fun broken => ?_, fun now => ?_⟩
  · obtain ⟨t, since⟩ := Option.isSome_iff_exists.mp (inv.noted broken)
    exact ⟨t, since, (inv.same broken).trans since⟩
  · unfold shouldAutoDisable
    by_cases closed : o.breaker.current = .closed
    · simp [closed, inv.closed closed]
    · obtain ⟨t, since⟩ := Option.isSome_iff_exists.mp (inv.noted closed)
      rw [if_neg closed, inv.same closed]
      simp [since]

/-- An open breaker whose probe is in flight. -/
theorem outage_dated_probing : ∃ o,
    Run step (fun o c => ¬ o.ProbeFails c) initial o ∧ o.breaker.current = .halfOpen ∧
      ((o.breaker.current ≠ .closed → ∃ t, o.outSince = some t ∧
        o.breaker.openedAt = some t) ∧
        ∀ now, shouldAutoDisable o.breaker now = true ↔
          ∃ t, o.outSince = some t ∧ autoDisableAfterSeconds ≤ now - t) := by
  have evaluates : (exec step (fun o c => decide (¬ o.ProbeFails c))
      (tripped ++ [.allowRequest 700]) initial).elim false
      (fun o => decide (o.breaker.current = .halfOpen)) = true := by
    decide +kernel
  obtain ⟨o, executed, halfOpen⟩ := reached evaluates
  have run := run_of_exec (fun _ _ => of_decide_eq_true) executed
  exact ⟨o, run, of_decide_eq_true halfOpen, outage_dated run⟩

/-- The breaker opens at 10 s and its probe fails at 705 s: `opened_at` is moved,
and 72 hours after the opening the endpoint is not disabled. -/
theorem outage_redated : ∃ o, Run step (fun o c => o.InOrder c ∧ c ≠ .reset) initial o ∧
    o.breaker.current = .opened ∧ o.outSince = some 10 ∧ o.breaker.openedAt = some 705 ∧
      shouldAutoDisable o.breaker (10 + autoDisableAfterSeconds) = false := by
  have evaluates : (exec step (fun o c => decide (o.InOrder c ∧ c ≠ .reset))
      (tripped ++ [.allowRequest 700, .recordOutcome 705 705 false 50]) initial).elim false
      (fun o => decide (o.breaker.current = .opened ∧ o.outSince = some 10 ∧
        o.breaker.openedAt = some 705 ∧
        shouldAutoDisable o.breaker (10 + autoDisableAfterSeconds) = false)) = true := by
    decide +kernel
  obtain ⟨o, executed, redated⟩ := reached evaluates
  have run := run_of_exec (fun _ _ => of_decide_eq_true) executed
  exact ⟨o, run, of_decide_eq_true redated⟩

end Relay.CircuitBreaker.Observed
