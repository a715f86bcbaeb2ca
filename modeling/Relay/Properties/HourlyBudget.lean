import Relay.Agent.Trigger
import Relay.Lib.Transition
import Mathlib.Tactic.Linarith
import Mathlib.Tactic.Ring

/-!
# The hourly budget of the agent

The count of an hour is emulated by one key that lives for the quotient of the
hour and the setting. The division rounds down, and then the claims of an
endpoint come a little too close.
-/

namespace Relay.Agent.Trigger

open Transition

/-- The key of one endpoint, the times of the claims that were allowed, the
latest first, and the time of the latest call. The daily budget always suffices. -/
structure Hourly where
  key : Option (Expiring Nat)
  allowed : List ℚ
  latest : Option ℚ

namespace Hourly

def initial : Hourly := ⟨none, [], none⟩

def perHour (n : Nat) : AgentSettings := { agentMaxRunsPerEndpointPerHour := n }

/-- How long the key lives. -/
def gap (n : Nat) : Nat := (perHour n).perHourSeconds

/-- A call of `claim_budget` at a time. -/
def step (n : Nat) (clock : ℚ) (x : Hourly) : Option Hourly :=
  match setNx x.key clock 0 (gap n) with
  | (key, true) => some ⟨key, clock :: x.allowed, some clock⟩
  | (key, false) => some ⟨key, x.allowed, some clock⟩

/-- Times do not decrease. -/
def InOrder (x : Hourly) (clock : ℚ) : Prop := ∀ t ∈ x.latest, t ≤ clock

instance (x : Hourly) (clock : ℚ) : Decidable (x.InOrder clock) :=
  inferInstanceAs (Decidable (∀ t ∈ x.latest, t ≤ clock))

/-- The claims allowed in the 3600 seconds from `s` on. -/
def window (x : Hourly) (s : ℚ) : List ℚ :=
  x.allowed.filter (fun t => s ≤ t ∧ t < s + 3600)

/-- No half-open window of an hour has more than `n` claims, in any run. -/
def Kept (n : Nat) : Prop :=
  ∀ x, Run (step n) InOrder initial x → ∀ s, (x.window s).length ≤ n

variable {n : Nat} {x y : Hourly} {clock : ℚ}

/-- Claims are as far apart as the key lives. -/
structure Spaced (n : Nat) (x : Hourly) : Prop where
  apart : x.allowed.Pairwise (fun a b : ℚ => b + gap n ≤ a)
  held : ∀ t ∈ x.allowed, ∃ k, x.key = some k ∧ t + gap n ≤ k.deadline

theorem Spaced.step (spaced : x.Spaced n) (next : step n clock x = some y) : y.Spaced n := by
  unfold Hourly.step setNx at next
  cases live : Expiring.liveBefore clock x.key with
  | some call =>
    rw [live] at next
    cases next
    exact ⟨spaced.apart, spaced.held⟩
  | none =>
    rw [live] at next
    cases next
    refine ⟨List.pairwise_cons.mpr ⟨fun t claimed => ?_, spaced.apart⟩, fun t claimed => ?_⟩
    · obtain ⟨k, key, deadline⟩ := spaced.held t claimed
      rw [key] at live
      exact le_trans deadline (Expiring.liveBefore_eq_none.mp live)
    · refine ⟨_, rfl, ?_⟩
      rcases List.mem_cons.mp claimed with rfl | claimed
      · exact le_refl _
      · obtain ⟨k, key, deadline⟩ := spaced.held t claimed
        rw [key] at live
        have gone := Expiring.liveBefore_eq_none.mp live
        have positive : (0 : ℚ) ≤ gap n := Nat.cast_nonneg _
        show t + (gap n : ℚ) ≤ clock + (gap n : ℚ)
        linarith

/-- The first of a spaced list lies a gap for each of the others after the bound. -/
theorem le_head_of_apart {d s a : ℚ} {rest : List ℚ}
    (apart : (a :: rest).Pairwise (fun a b : ℚ => b + d ≤ a))
    (above : ∀ t ∈ a :: rest, s ≤ t) :
    s + rest.length * d ≤ a := by
  induction rest generalizing a with
  | nil => simpa using above a List.mem_cons_self
  | cons b rest ih =>
    obtain ⟨first, later⟩ := List.pairwise_cons.mp apart
    have below := ih later (fun t listed => above t (List.mem_cons_of_mem _ listed))
    have next := first b List.mem_cons_self
    push_cast [List.length_cons]
    linarith

/-- All but the latest claim of a window fit into it with their gaps. -/
theorem Spaced.window_lt (spaced : x.Spaced n) (s : ℚ) :
    ((x.window s).length - 1) * gap n < 3600 := by
  have apart : (x.window s).Pairwise (fun a b : ℚ => b + gap n ≤ a) :=
    spaced.apart.sublist List.filter_sublist
  have inside : ∀ t ∈ x.window s, s ≤ t ∧ t < s + 3600 := fun t listed =>
    of_decide_eq_true (List.mem_filter.mp listed).2
  cases claims : x.window s with
  | nil => simp
  | cons a rest =>
    rw [claims] at apart inside
    have lowest := le_head_of_apart apart (fun t listed => (inside t listed).1)
    have highest := (inside a List.mem_cons_self).2
    have fits : (rest.length : ℚ) * gap n < 3600 := by linarith
    simpa using (by exact_mod_cast fits : rest.length * gap n < 3600)

theorem gap_of_le (positive : 1 ≤ n) (small : n ≤ 3600) : gap n = 3600 / n := by
  have quotient : 1 ≤ 3600 / n := (Nat.one_le_div_iff positive).mpr small
  show max 1 (3600 / max 1 n) = 3600 / n
  rw [max_eq_right positive, max_eq_right quotient]

theorem kept_of_divides (positive : 1 ≤ n) (fits : n ∣ 3600 ∨ 3600 ≤ n) : Kept n := by
  intro x run s
  have spaced : x.Spaced n := run.invariant (I := Spaced n)
    ⟨List.Pairwise.nil, fun t claimed => by cases claimed⟩
      (fun spaced _ next => spaced.step next)
  have short := spaced.window_lt s
  have counts : (x.window s).length - 1 < n := by
    rcases fits with ⟨q, hour⟩ | large
    · have small : n ≤ 3600 := Nat.le_of_dvd (by decide) ⟨q, hour⟩
      rw [gap_of_le positive small, hour, Nat.mul_div_cancel_left q positive] at short
      exact Nat.lt_of_mul_lt_mul_right short
    · have one : 1 ≤ gap n := le_max_left _ _
      calc (x.window s).length - 1 ≤ ((x.window s).length - 1) * gap n :=
            Nat.le_mul_of_pos_right _ one
        _ < 3600 := short
        _ ≤ n := large
  omega

/-! Claims as early as the key allows -/

/-- The times of `k + 1` claims, the latest first. -/
def claimsUpTo (n : Nat) : Nat → List ℚ
  | 0 => [0]
  | k + 1 => (k + 1 : Nat) * (gap n : ℚ) :: claimsUpTo n k

theorem length_claimsUpTo (n k : Nat) : (claimsUpTo n k).length = k + 1 := by
  induction k with
  | zero => rfl
  | succ k ih => rw [claimsUpTo, List.length_cons, ih]

theorem mem_claimsUpTo {k : Nat} {t : ℚ} (listed : t ∈ claimsUpTo n k) :
    0 ≤ t ∧ t ≤ k * (gap n : ℚ) := by
  have positive : (0 : ℚ) ≤ gap n := Nat.cast_nonneg _
  induction k with
  | zero =>
    rw [List.mem_singleton.mp listed]
    exact ⟨le_refl _, by simp⟩
  | succ k ih =>
    rcases List.mem_cons.mp listed with rfl | earlier
    · exact ⟨mul_nonneg (Nat.cast_nonneg _) positive, le_refl _⟩
    · obtain ⟨low, high⟩ := ih earlier
      refine ⟨low, ?_⟩
      push_cast
      linarith

theorem run_claimsUpTo (n k : Nat) : Run (step n) InOrder initial
    ⟨some ⟨0, k * (gap n : ℚ) + gap n⟩, claimsUpTo n k, some (k * (gap n : ℚ))⟩ := by
  have positive : (0 : ℚ) ≤ gap n := Nat.cast_nonneg _
  induction k with
  | zero =>
    refine .tail (l := 0) .refl (fun t known => by cases known) ?_
    simp [step, setNx, initial, Expiring.liveBefore, claimsUpTo]
  | succ k ih =>
    have time : ((k + 1 : Nat) : ℚ) * gap n = k * (gap n : ℚ) + gap n := by
      push_cast
      ring
    refine .tail (l := (k + 1 : Nat) * (gap n : ℚ)) ih (fun t known => ?_) ?_
    · cases known
      rw [time]
      linarith
    · have gone : Expiring.liveBefore (((k + 1 : Nat) : ℚ) * gap n)
          (some (⟨0, k * (gap n : ℚ) + gap n⟩ : Expiring Nat)) = none :=
        Expiring.liveBefore_eq_none.mpr (le_of_eq time.symm)
      simp only [step, setNx, gone, claimsUpTo]

/-- When the quotient is rounded down, `n + 1` claims fit into an hour. -/
theorem not_kept (positive : 1 ≤ n) (small : n < 3600) (rounded : ¬ n ∣ 3600) : ¬ Kept n := by
  intro kept
  have bounded := kept _ (run_claimsUpTo n n) 0
  have short : n * gap n < 3600 := by
    rw [gap_of_le positive small.le]
    refine lt_of_le_of_ne (Nat.mul_div_le 3600 n) (fun whole => rounded ⟨_, whole.symm⟩)
  have inside : ∀ t ∈ claimsUpTo n n, decide ((0 : ℚ) ≤ t ∧ t < 0 + 3600) = true := by
    intro t listed
    obtain ⟨low, high⟩ := mem_claimsUpTo listed
    have below : (n : ℚ) * gap n < 3600 := by exact_mod_cast short
    exact decide_eq_true ⟨low, by linarith⟩
  rw [window, List.filter_eq_self.mpr inside, length_claimsUpTo] at bounded
  omega

/-- The hourly budget is kept exactly for the divisors of an hour and for
settings of 3600 and more. -/
theorem budget_kept (positive : 1 ≤ n) : Kept n ↔ n ∣ 3600 ∨ 3600 ≤ n := by
  constructor
  · intro kept
    by_contra rounded
    push Not at rounded
    exact not_kept positive rounded.2 rounded.1 kept
  · exact kept_of_divides positive

/-- One run an hour, the default. -/
theorem budget_kept_one : Kept 1 := (budget_kept (Nat.le_refl 1)).mpr (Or.inl (one_dvd 3600))

/-- Seven runs an hour: the eighth comes after 3598 seconds. -/
theorem budget_exceeded : ¬ ∀ n, 1 ≤ n → Kept n :=
  fun claimed => not_kept (by decide) (by decide) (by decide) (claimed 7 (by decide))

end Hourly

end Relay.Agent.Trigger
