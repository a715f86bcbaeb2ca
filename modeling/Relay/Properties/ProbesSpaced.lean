import Relay.Delivery.BreakerCalls
import Relay.Lib.Transition
import Mathlib.Tactic.Linarith

/-!
# Probes are exclusive and spaced

A breaker that is open was last probed no earlier than any probe granted so far:
opening it writes the time of the probe as well, and no transition brings an
older time back. A reset and a recovery delete that time, but they also close
the breaker, and it does not probe again before it has opened again.
-/

namespace Relay.CircuitBreaker.Observed

open Transition

variable {o o' : Observed} {c : Call}

structure Spaced (o : Observed) : Prop where
  spaced : o.probes.Pairwise (fun later earlier =>
    halfOpenProbeIntervalSeconds ≤ later - earlier)
  known : ∀ p ∈ o.probes, ∃ t ∈ o.latest, p ≤ t
  probed : o.breaker.current = .opened →
    ∃ v ∈ o.breaker.lastProbeAt, (∀ p ∈ o.probes, p ≤ v) ∧ ∃ t ∈ o.latest, v ≤ t
  exclusive : o.probing = true → o.breaker.current = .halfOpen

theorem spaced_initial : Spaced initial where
  spaced := List.Pairwise.nil
  known := fun _ h => absurd h List.not_mem_nil
  probed := fun h => by cases h
  exclusive := fun h => by cases h

/-- Nothing that happened so far is later than a call in order. -/
theorem Spaced.probes_le (inv : Spaced o) {now : ℚ} (order : ∀ t ∈ o.latest, t ≤ now) :
    ∀ p ∈ o.probes, p ≤ now := by
  intro p listed
  obtain ⟨t, latest, le⟩ := inv.known p listed
  exact le_trans le (order t latest)

theorem Spaced.allowRequest (inv : Spaced o) {now : ℚ} (order : ∀ t ∈ o.latest, t ≤ now)
    (next : step (.allowRequest now) o = some o') : Spaced o' := by
  cases next
  have early := inv.probes_le order
  have allows := allowRequestLua_allows o.breaker now
  generalize allowRequestLua o.breaker now = a at allows
  cases allows with
  | allowed _ same decision | denied _ same decision =>
    have granted : ¬ a.2.1 = .probe := by rw [decision]; decide
    refine ⟨?_, ?_, ?_, ?_⟩
    all_goals simp only [if_neg granted, same]
    · exact inv.spaced
    · exact fun p listed => ⟨now, rfl, early p listed⟩
    · intro opened
      obtain ⟨v, last, above, t, latest, le⟩ := inv.probed opened
      exact ⟨v, last, above, now, rfl, le_trans le (order t latest)⟩
    · exact inv.exclusive
  | probes opened due current _ last decision =>
    obtain ⟨v, probed, above, _⟩ := inv.probed opened
    have value : o.breaker.lastProbeAt = some v := probed
    rw [value, Option.getD_some] at due
    refine ⟨?_, ?_, ?_, ?_⟩
    all_goals simp only [if_pos decision]
    · refine List.pairwise_cons.mpr ⟨fun p listed => ?_, inv.spaced⟩
      have := above p listed
      linarith
    · intro p listed
      rcases List.mem_cons.mp listed with rfl | listed
      · exact ⟨p, rfl, le_refl p⟩
      · exact ⟨now, rfl, early p listed⟩
    · rw [current]
      exact fun h => by cases h
    · exact fun _ => current

theorem Spaced.recordOutcome (inv : Spaced o) {clock now : ℚ} {success : Bool} {member : Uuid}
    (order : ∀ t ∈ o.latest, t ≤ now)
    (next : step (.recordOutcome clock now success member) o = some o') : Spaced o' := by
  cases next
  have early := inv.probes_le order
  have records := recordOutcomeLua_records o.breaker clock now success member
  generalize recordOutcomeLua o.breaker clock now success member = a at records
  refine ⟨inv.spaced, fun p listed => ⟨now, rfl, early p listed⟩, fun opened => ?_,
    (fun h => by cases h)⟩
  change a.1.current = .opened at opened
  cases records with
  | keeps current _ _ last =>
    rw [current] at opened
    obtain ⟨v, probed, above, t, latest, le⟩ := inv.probed opened
    exact ⟨v, last ▸ probed, above, now, rfl, le_trans le (order t latest)⟩
  | opens _ _ _ _ last => exact ⟨now, last, early, now, rfl, le_refl now⟩
  | closes _ _ closed =>
    rw [closed] at opened
    cases opened

theorem Spaced.step (inv : Spaced o) (order : o.InOrder c) (next : step c o = some o') :
    Spaced o' := by
  cases c with
  | allowRequest => exact inv.allowRequest order next
  | recordOutcome => exact inv.recordOutcome order next
  | reset =>
    cases next
    exact ⟨inv.spaced, inv.known, (fun h => by cases h), (fun h => by cases h)⟩

/-- Two probes are ten minutes apart, and one in flight keeps everyone else out. -/
theorem probes_spaced (run : Run step InOrder initial o) :
    o.probes.Pairwise (fun later earlier => halfOpenProbeIntervalSeconds ≤ later - earlier) ∧
      (o.probing = true → ∀ now, (allowRequestLua o.breaker now).2.1 = .deny) := by
  have inv : Spaced o := run.invariant spaced_initial (fun inv order next => inv.step order next)
  exact ⟨inv.spaced, fun probing => allowRequestLua_denies (inv.exclusive probing)⟩

/-- Two probes, the second after the first has failed and before its own outcome. -/
theorem probes_spaced_twice : ∃ o, Run step InOrder initial o ∧ o.probes = [1400, 700] ∧
    o.probing = true ∧
    o.probes.Pairwise (fun later earlier => halfOpenProbeIntervalSeconds ≤ later - earlier) ∧
      (o.probing = true → ∀ now, (allowRequestLua o.breaker now).2.1 = .deny) := by
  have evaluates : (exec step (fun o c => decide (o.InOrder c))
      (tripped ++ [.allowRequest 700, .recordOutcome 705 705 false 50, .allowRequest 1400])
      initial).elim false
        (fun o => decide (o.probes = [1400, 700] ∧ o.probing = true)) = true := by
    decide +kernel
  obtain ⟨o, executed, granted⟩ := reached evaluates
  obtain ⟨probes, probing⟩ := of_decide_eq_true granted
  have run := run_of_exec (fun _ _ => of_decide_eq_true) executed
  exact ⟨o, run, probes, probing, probes_spaced run⟩

end Relay.CircuitBreaker.Observed
