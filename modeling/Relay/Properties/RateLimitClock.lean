import Relay.Delivery.RateLimit
import Relay.Lib.Transition
import Mathlib.Tactic.Linarith
import Mathlib.Tactic.Ring

/-!
# The rate limit and the workers' clocks

The bucket refills from the time that the previous caller passed. Read in order,
the refills add up to the time that has passed between the first and the last
call; a call with an earlier time sets the bucket back, and the same stretch is
credited again.
-/

namespace Relay.RateLimit

open Transition

/-- The bucket of a tenant, the tokens it has granted and the times of the calls. -/
structure Metered where
  bucket : Option (Expiring Bucket)
  granted : Nat
  times : List ℚ

namespace Metered

/-- A call of `take_token`: the server's clock, and the time that the worker passes. -/
structure Call where
  clock : ℚ
  now : ℚ

def initial : Metered := ⟨none, 0, []⟩

def step (rate : Nat) (c : Call) (x : Metered) : Option Metered :=
  let answer := takeToken x.bucket c.clock rate c.now
  some ⟨answer.1, if answer.2 then x.granted + 1 else x.granted, c.now :: x.times⟩

/-- The call is not earlier than the one before; where the key has expired since
then, the bucket would have been full again by now. -/
def InOrder (rate : Nat) (x : Metered) (c : Call) : Prop :=
  ∀ k ∈ x.bucket,
    if c.clock ≤ k.deadline then k.value.updatedAt ≤ c.now
    else (rate : ℚ) ≤ k.value.tokens + (c.now - k.value.updatedAt) * rate

instance (rate : Nat) (x : Metered) (c : Call) : Decidable (x.InOrder rate c) :=
  inferInstanceAs (Decidable (∀ k ∈ x.bucket, _))

variable {rate : Nat} {x y : Metered} {c : Call}

/-- Granted tokens and those left in the bucket come from the time passed since
the first call. -/
structure Funded (rate : Nat) (x : Metered) (k : Expiring Bucket) (first : ℚ) : Prop where
  nonneg : 0 ≤ k.value.tokens
  funds : (x.granted : ℚ) + k.value.tokens ≤ rate * (1 + (k.value.updatedAt - first))
  early : first ∈ x.times
  late : k.value.updatedAt ∈ x.times

def Sound (rate : Nat) (x : Metered) : Prop :=
  match x.bucket with
  | none => x.granted = 0
  | some k => ∃ first, Funded rate x k first

/-- A step from what the bucket holds after the refill. -/
theorem funded_step {tokens first : ℚ} (early : first ∈ c.now :: x.times)
    (nonneg : 0 ≤ tokens)
    (refilled : min (rate : ℚ) (((Expiring.live c.clock x.bucket).getD ⟨rate, c.now⟩).tokens +
      max 0 (c.now - ((Expiring.live c.clock x.bucket).getD ⟨rate, c.now⟩).updatedAt) * rate) =
        tokens)
    (funds : (x.granted : ℚ) + tokens ≤ rate * (1 + (c.now - first)))
    (next : step rate c x = some y) : y.Sound rate := by
  simp only [step, takeToken_eq refilled] at next
  by_cases enough : 1 ≤ tokens
  · simp only [if_pos enough, if_true] at next
    cases next
    refine ⟨first, by linarith, ?_, early, List.mem_cons_self⟩
    push_cast
    linarith
  · simp only [if_neg enough] at next
    cases next
    exact ⟨first, nonneg, funds, early, List.mem_cons_self⟩

theorem Sound.step (sound : x.Sound rate) (order : x.InOrder rate c)
    (next : step rate c x = some y) : y.Sound rate := by
  have full : (0 : ℚ) ≤ rate := Nat.cast_nonneg rate
  unfold Sound at sound
  cases bucket : x.bucket with
  | none =>
    rw [bucket] at sound
    refine funded_step List.mem_cons_self full ?_ ?_ next
    · simp [bucket]
    · rw [sound]
      simp
  | some k =>
    rw [bucket] at sound
    obtain ⟨first, funded⟩ := sound
    have funds := funded.funds
    have order := order k bucket
    by_cases live : c.clock ≤ k.deadline
    · rw [if_pos live] at order
      have refills : 0 ≤ k.value.tokens + (c.now - k.value.updatedAt) * rate :=
        add_nonneg funded.nonneg (mul_nonneg (by linarith) full)
      refine funded_step (List.mem_cons_of_mem _ funded.early) (le_min full refills) ?_ ?_ next
      · rw [bucket, Expiring.live_some live, Option.getD_some, max_eq_right (by linarith)]
      · have bounded := min_le_right (rate : ℚ)
          (k.value.tokens + (c.now - k.value.updatedAt) * rate)
        have share : (rate : ℚ) * (1 + (c.now - first)) =
            rate * (1 + (k.value.updatedAt - first)) + (c.now - k.value.updatedAt) * rate := by
          ring
        linarith
    · rw [if_neg live] at order
      have expired : Expiring.live c.clock x.bucket = none := by
        rw [bucket]
        exact if_pos (not_le.mp live)
      refine funded_step (List.mem_cons_of_mem _ funded.early) full ?_ ?_ next
      · simp [expired]
      · have share : (rate : ℚ) * (1 + (c.now - first)) =
            rate * (1 + (k.value.updatedAt - first)) + (c.now - k.value.updatedAt) * rate := by
          ring
        linarith

/-- Calls in order are granted at most the burst and the refill of the interval
that their times lie in. -/
theorem rate_limited (run : Run (step rate) (InOrder rate) initial x) {s t : ℚ}
    (ordered : s ≤ t)
    (inside : ∀ now ∈ x.times, s ≤ now ∧ now ≤ t) :
    (x.granted : ℚ) ≤ rate * (1 + (t - s)) := by
  have sound : x.Sound rate := run.invariant (I := Sound rate) rfl
    (fun sound order next => sound.step order next)
  have full : (0 : ℚ) ≤ rate := Nat.cast_nonneg rate
  unfold Sound at sound
  cases bucket : x.bucket with
  | none =>
    rw [bucket] at sound
    rw [sound]
    exact mul_nonneg full (by linarith)
  | some k =>
    rw [bucket] at sound
    obtain ⟨first, funded⟩ := sound
    have earliest := (inside first funded.early).1
    have latest := (inside _ funded.late).2
    calc (x.granted : ℚ) ≤ x.granted + k.value.tokens := by linarith [funded.nonneg]
      _ ≤ rate * (1 + (k.value.updatedAt - first)) := funded.funds
      _ ≤ rate * (1 + (t - s)) := mul_le_mul_of_nonneg_left (by linarith) full

/-- Three calls within a second. -/
theorem rate_limited_three : ∃ x : Metered, Run (step 2) (InOrder 2) initial x ∧
    x.times = [1, 1 / 2, 0] ∧ x.granted = 3 ∧
      (x.granted : ℚ) ≤ (2 : Nat) * (1 + (1 - 0)) := by
  have evaluates : (exec (step 2) (fun x c => decide (x.InOrder 2 c))
      [⟨0, 0⟩, ⟨1 / 2, 1 / 2⟩, ⟨1, 1⟩] initial).elim false
      (fun x => decide (x.times = [1, 1 / 2, 0] ∧ x.granted = 3)) = true := by
    decide +kernel
  obtain ⟨x, executed, passes⟩ := reached evaluates
  obtain ⟨times, granted⟩ := of_decide_eq_true passes
  have run := run_of_exec (fun _ _ => of_decide_eq_true) executed
  have inside : ∀ now ∈ x.times, (0 : ℚ) ≤ now ∧ now ≤ 1 := by
    rw [times]
    decide +kernel
  exact ⟨x, run, times, granted, rate_limited run zero_le_one inside⟩

/-- One token a second, times 1 and 0 in turn: three grants where two are due. -/
theorem rate_exceeded : ∃ x : Metered, Run (step 1) (fun _ _ => True) initial x ∧
    (∀ now ∈ x.times, (0 : ℚ) ≤ now ∧ now ≤ 1) ∧
    ¬ (x.granted : ℚ) ≤ (1 : Nat) * (1 + (1 - 0)) := by
  have evaluates : (exec (step 1) (fun _ _ => true)
      [⟨1, 1⟩, ⟨1, 0⟩, ⟨1, 1⟩, ⟨1, 0⟩, ⟨1, 1⟩] initial).elim false
      (fun x => decide ((∀ now ∈ x.times, (0 : ℚ) ≤ now ∧ now ≤ 1) ∧
        ¬ (x.granted : ℚ) ≤ (1 : Nat) * (1 + (1 - 0)))) = true := by
    decide +kernel
  obtain ⟨x, executed, passes⟩ := reached evaluates
  exact ⟨x, run_of_exec (fun _ _ _ => trivial) executed, of_decide_eq_true passes⟩

end Metered

end Relay.RateLimit
