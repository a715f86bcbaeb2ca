import Mathlib.Algebra.Order.Field.Basic
import Mathlib.Tactic.Linarith
import Mathlib.Tactic.Ring

/-!
# Doubling delays up to a cap

A loop that waits after each failure, twice as long as the time before up to a
cap, and starts over after a success.
-/

structure Backoff (K : Type*) [Field K] [LinearOrder K] where
  base : K
  cap : K
  base_pos : 0 < base
  base_le : base ≤ cap

namespace Backoff

variable {K : Type*} [Field K] [LinearOrder K] [IsStrictOrderedRing K] (p : Backoff K) (n : Nat)

omit [IsStrictOrderedRing K] in
/-- The delay that follows a delay. -/
def next (delay : K) : K := min (delay * 2) p.cap

omit [IsStrictOrderedRing K] in
/-- The delay after so many failures in a row. -/
def after : K := min (p.base * 2 ^ n) p.cap

omit [IsStrictOrderedRing K] in
@[simp] theorem after_zero : p.after 0 = p.base := by simp [after, p.base_le]

theorem next_after : p.next (p.after n) = p.after (n + 1) := by
  have grows : p.base * 2 ^ (n + 1) = p.base * 2 ^ n * 2 := by ring
  have capped : p.cap ≤ p.cap * 2 := by linarith [p.base_pos, p.base_le]
  unfold next after
  rw [grows, min_mul_of_nonneg _ _ zero_le_two, min_assoc, min_eq_right capped]

/-! A loop at work, and one that waits after a failure. The count of failures
starts over with the delay. -/

variable {p n} {delay : K}

omit [IsStrictOrderedRing K] in
variable (p) in
/-- After so many failures in a row, at work. -/
def Ready (delay : K) (failures : Nat) : Prop := delay = p.after failures

omit [IsStrictOrderedRing K] in
variable (p) in
/-- It waits, the last of so many failures in a row having just happened. -/
def Waits (delay : K) (failures : Nat) : Prop :=
  0 < failures ∧ delay = p.after (failures - 1)

omit [IsStrictOrderedRing K] in
theorem ready_base : p.Ready p.base 0 := p.after_zero.symm

omit [IsStrictOrderedRing K] in
theorem Ready.fails (ready : p.Ready delay n) : p.Waits delay (n + 1) := ⟨Nat.succ_pos n, ready⟩

theorem Waits.passes (waits : p.Waits delay n) : p.Ready (p.next delay) n := by
  obtain ⟨failed, rfl⟩ := waits
  rw [Ready, next_after, Nat.sub_add_cancel failed]

end Backoff
