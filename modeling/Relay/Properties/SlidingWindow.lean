import Relay.Delivery.RateLimit
import Relay.Lib.TokenBucket
import Mathlib.Algebra.BigOperators.Ring.Finset

/-!
# The token bucket as a sliding-window limiter

One number, clamped at zero and at the burst and forgotten after a minute
without a call, against all windows of the history.
-/

namespace Relay.RateLimit

open TokenBucket

/-- The bucket before call `k`; the calls come at the times `t`, by all clocks. -/
def bucketBefore (rate : Nat) (t : Nat → ℚ) : Nat → Option (Expiring Bucket)
  | 0 => none
  | k + 1 => (takeToken (bucketBefore rate t k) (t k) rate (t k)).1

/-- The answer to call `k`. -/
def granted (rate : Nat) (t : Nat → ℚ) (k : Nat) : Bool :=
  (takeToken (bucketBefore rate t k) (t k) rate (t k)).2

/-- How many of the calls `j`, ..., `k - 1` are granted. -/
def grants (rate : Nat) (t : Nat → ℚ) (j k : Nat) : Nat :=
  ((Finset.Ico j k).filter (fun i => granted rate t i = true)).card

/-- What call `k` takes out of the bucket. -/
def taken (rate : Nat) (t : Nat → ℚ) (k : Nat) : ℚ := if granted rate t k = true then 1 else 0

variable {rate : Nat} {t : Nat → ℚ} {k : Nat}

theorem spentIn_taken (rate : Nat) (t : Nat → ℚ) (j k : Nat) :
    spentIn (taken rate t) j k = grants rate t j k := by
  unfold spentIn taken grants
  rw [Finset.sum_boole]

/-- The bucket that a call finds holds `x` tokens after the refill. -/
structure Finds (rate : Nat) (t : Nat → ℚ) (k : Nat) (x : ℚ) : Prop where
  answer : granted rate t k = true ↔ 1 ≤ x
  left : bucketBefore rate t (k + 1) = some ⟨⟨x - taken rate t k, t k⟩, t k + bucketTtl⟩

theorem finds_of_refilled {x : ℚ}
    (refilled : min (rate : ℚ)
      (((Expiring.live (t k) (bucketBefore rate t k)).getD ⟨rate, t k⟩).tokens +
        max 0 (t k - ((Expiring.live (t k) (bucketBefore rate t k)).getD
          ⟨rate, t k⟩).updatedAt) * rate) = x) : Finds rate t k x := by
  have call := takeToken_eq refilled
  by_cases enough : 1 ≤ x
  · rw [if_pos enough] at call
    have grant : granted rate t k = true := by rw [granted, call]
    refine ⟨⟨fun _ => enough, fun _ => grant⟩, ?_⟩
    rw [taken, if_pos grant, bucketBefore, call]
  · rw [if_neg enough] at call
    have refusal : granted rate t k = false := by rw [granted, call]
    refine ⟨⟨fun grant => ?_, fun more => absurd more enough⟩, ?_⟩
    · rw [refusal] at grant
      cases grant
    · rw [taken, if_neg (by rw [refusal]; exact Bool.false_ne_true), bucketBefore, call, sub_zero]

theorem Finds.affordable {x : ℚ} (finds : Finds rate t k x) (nonneg : 0 ≤ x) :
    taken rate t k ≤ x := by
  unfold taken
  by_cases grant : granted rate t k = true
  · rw [if_pos grant]
    exact finds.answer.mp grant
  · rwa [if_neg grant]

/-- Every call finds the level of a bucket that never expires. -/
theorem finds_level (positive : 1 ≤ rate) (ordered : Monotone t) (k : Nat) :
    Finds rate t k (level (rate : ℚ) rate t (taken rate t) k) ∧
      taken rate t k ≤ level (rate : ℚ) rate t (taken rate t) k := by
  have full : (1 : ℚ) ≤ rate := Nat.one_le_cast.mpr positive
  have full_nonneg : (0 : ℚ) ≤ rate := le_trans zero_le_one full
  induction k with
  | zero =>
    have finds : Finds rate t 0 (level (rate : ℚ) rate t (taken rate t) 0) := by
      apply finds_of_refilled
      simp [bucketBefore, level]
    exact ⟨finds, finds.affordable full_nonneg⟩
  | succ k ih =>
    obtain ⟨before, affordable⟩ := ih
    have passed : t k ≤ t (k + 1) := ordered (Nat.le_succ k)
    have finds : Finds rate t (k + 1) (level (rate : ℚ) rate t (taken rate t) (k + 1)) := by
      apply finds_of_refilled
      rw [before.left]
      by_cases live : t (k + 1) ≤ t k + bucketTtl
      · rw [Expiring.live_some live, Option.getD_some, max_eq_right (sub_nonneg.mpr passed)]
        rfl
      · -- a minute fills any bucket
        have minute : (1 : ℚ) ≤ t (k + 1) - t k := by
          have beyond : t k + 60 < t (k + 1) := not_le.mp live
          linarith
        have expired : Expiring.live (t (k + 1))
            (some (⟨⟨level (rate : ℚ) rate t (taken rate t) k - taken rate t k, t k⟩,
              t k + bucketTtl⟩ : Expiring Bucket)) = none :=
          if_pos (not_le.mp live)
        rw [level_full affordable (le_mul_of_one_le_left full_nonneg minute), expired]
        simp
    exact ⟨finds, finds.affordable (level_nonneg full_nonneg full_nonneg passed affordable)⟩

/-- A call is granted exactly when no window that ends with it has granted more
than the burst and its refill, this call included. -/
theorem granted_iff (positive : 1 ≤ rate) (ordered : Monotone t) :
    granted rate t k = true ↔
      ∀ j ≤ k, (grants rate t j k : ℚ) + 1 ≤ rate + rate * (t k - t j) := by
  rw [(finds_level positive ordered k).1.answer, le_level_iff]
  constructor
  · intro windows j upTo
    have window := windows j upTo
    rwa [spentIn_taken, add_comm] at window
  · intro windows j upTo
    rw [spentIn_taken, add_comm]
    exact windows j upTo

/-- Two tokens a second, a call every quarter: the fourth is one too many. -/
theorem granted_iff_quarters : granted 2 (fun n => n / 4) 3 = false ∧
    (granted 2 (fun n => n / 4) 3 = true ↔ ∀ j ≤ 3,
      (grants 2 (fun n => n / 4) j 3 : ℚ) + 1 ≤
        (2 : Nat) + (2 : Nat) * ((3 : Nat) / 4 - j / 4)) := by
  refine ⟨by decide +kernel, granted_iff (by decide) (fun i j upTo => ?_)⟩
  have later : (i : ℚ) ≤ j := Nat.cast_le.mpr upTo
  exact div_le_div_of_nonneg_right later (by norm_num)

end Relay.RateLimit
