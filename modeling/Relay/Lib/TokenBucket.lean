import Mathlib.Algebra.BigOperators.Intervals
import Mathlib.Algebra.Order.BigOperators.Group.Finset
import Mathlib.Algebra.Order.Field.Basic
import Mathlib.Tactic.Linarith
import Mathlib.Tactic.Ring

/-!
# The level of a token bucket

Calls come at times `t 0`, `t 1`, and so on; call `k` finds a level and spends
`spent k` of it. The level is refilled at a constant rate and capped at the
burst. In terms of the whole history it is the least, over all windows that end
with the call, of what the window is due less what was spent in it.
-/

namespace TokenBucket

variable {K : Type*} [Field K] [LinearOrder K] [IsStrictOrderedRing K]

/-- What call `k` finds. -/
def level (burst rate : K) (t spent : Nat → K) : Nat → K
  | 0 => burst
  | k + 1 => min burst (level burst rate t spent k - spent k + (t (k + 1) - t k) * rate)

/-- What the calls `j`, ..., `k - 1` have spent. -/
def spentIn (spent : Nat → K) (j k : Nat) : K := ∑ i ∈ Finset.Ico j k, spent i

variable {burst rate x : K} {t spent : Nat → K} {j k : Nat}

omit [LinearOrder K] [IsStrictOrderedRing K] in
@[simp] theorem spentIn_self : spentIn spent k k = 0 := by simp [spentIn]

omit [LinearOrder K] [IsStrictOrderedRing K] in
theorem spentIn_succ (before : j ≤ k) : spentIn spent j (k + 1) = spentIn spent j k + spent k :=
  Finset.sum_Ico_succ_top before spent

/-- The level bounds `x` exactly when every window up to the call does. -/
theorem le_level_iff : x ≤ level burst rate t spent k ↔
    ∀ j ≤ k, x + spentIn spent j k ≤ burst + rate * (t k - t j) := by
  induction k generalizing x with
  | zero =>
    constructor
    · intro below j first
      rw [Nat.le_zero.mp first]
      simpa [level] using below
    · intro windows
      simpa [level] using windows 0 (Nat.le_refl 0)
  | succ k ih =>
    have earlier : x ≤ level burst rate t spent k - spent k + (t (k + 1) - t k) * rate ↔
        x + spent k - (t (k + 1) - t k) * rate ≤ level burst rate t spent k := by
      constructor <;> intro h <;> linarith
    rw [level, le_min_iff, earlier, ih]
    constructor
    · rintro ⟨capped, windows⟩ j upTo
      rcases Nat.le_succ_iff.mp upTo with before | rfl
      · have window := windows j before
        rw [spentIn_succ before]
        linarith
      · simpa using capped
    · intro windows
      constructor
      · simpa using windows (k + 1) (Nat.le_refl _)
      · intro j before
        have window := windows j (Nat.le_succ_of_le before)
        rw [spentIn_succ before] at window
        linarith

/-- A refill that fills any bucket makes the level independent of what was there. -/
theorem level_full (affordable : spent k ≤ level burst rate t spent k)
    (long : burst ≤ (t (k + 1) - t k) * rate) : level burst rate t spent (k + 1) = burst := by
  rw [level, min_eq_left]
  linarith

/-- Who spends no more than there is, and calls in order, finds no debt. -/
theorem level_nonneg (burst_nonneg : 0 ≤ burst) (rate_nonneg : 0 ≤ rate)
    (ordered : t k ≤ t (k + 1)) (affordable : spent k ≤ level burst rate t spent k) :
    0 ≤ level burst rate t spent (k + 1) := by
  have refill : 0 ≤ (t (k + 1) - t k) * rate := mul_nonneg (sub_nonneg.mpr ordered) rate_nonneg
  exact le_min burst_nonneg (by linarith)

/-! A window of calls, whatever the level was before it -/

/-- What `tokens` at time `u` have become at time `t`. -/
def refilled (burst rate tokens u t : K) : K := min burst (tokens + (t - u) * rate)

/-- From `since` on at most the burst and the refill of the time since then are spent
or still there. -/
structure Credit (burst rate since spent tokens u : K) : Prop where
  nonneg : 0 ≤ tokens
  funds : spent + refilled burst rate tokens u (max since u) ≤
    burst + rate * (max since u - since)

section Credit

variable {burst rate since spent tokens u now cost : K}

variable (burst tokens u) in
theorem refilled_le (rate_nonneg : 0 ≤ rate) {s : K} (ordered : s ≤ now) :
    refilled burst rate tokens u now ≤ refilled burst rate tokens u s + (now - s) * rate := by
  have refill : 0 ≤ (now - s) * rate := mul_nonneg (sub_nonneg.mpr ordered) rate_nonneg
  unfold refilled
  rw [← min_add_add_right]
  refine min_le_min (le_add_of_nonneg_right refill) (le_of_eq ?_)
  ring

theorem Credit.start (rate_nonneg : 0 ≤ rate) (nonneg : 0 ≤ tokens) :
    Credit burst rate since 0 tokens u where
  nonneg := nonneg
  funds := by
    have later : 0 ≤ rate * (max since u - since) :=
      mul_nonneg rate_nonneg (sub_nonneg.mpr (le_max_left since u))
    have capped : refilled burst rate tokens u (max since u) ≤ burst := min_le_left _ _
    linarith

/-- A call that is not earlier than the ones before spends no more than there is. -/
theorem Credit.spend (credit : Credit burst rate since spent tokens u) (rate_nonneg : 0 ≤ rate)
    (ordered : max since u ≤ now) (affordable : cost ≤ refilled burst rate tokens u now) :
    Credit burst rate since (spent + cost) (refilled burst rate tokens u now - cost) now where
  nonneg := sub_nonneg.mpr affordable
  funds := by
    have late : max since now = now := max_eq_right (le_trans (le_max_left since u) ordered)
    have left : refilled burst rate (refilled burst rate tokens u now - cost) now now ≤
        refilled burst rate tokens u now - cost :=
      le_trans (min_le_right _ _) (le_of_eq (by ring))
    have grown := refilled_le burst tokens u rate_nonneg ordered
    have share : rate * (now - since) =
        rate * (max since u - since) + (now - max since u) * rate := by
      ring
    have funds := credit.funds
    rw [late]
    linarith

theorem Credit.spent_le (credit : Credit burst rate since spent tokens u)
    (burst_nonneg : 0 ≤ burst) (rate_nonneg : 0 ≤ rate) (late : max since u ≤ now) :
    spent ≤ burst + rate * (now - since) := by
  have refill : 0 ≤ (max since u - u) * rate :=
    mul_nonneg (sub_nonneg.mpr (le_max_right since u)) rate_nonneg
  have left : 0 ≤ refilled burst rate tokens u (max since u) :=
    le_min burst_nonneg (by linarith [credit.nonneg])
  have more : rate * (max since u - since) ≤ rate * (now - since) :=
    mul_le_mul_of_nonneg_left (by linarith) rate_nonneg
  linarith [credit.funds]

end Credit

end TokenBucket
