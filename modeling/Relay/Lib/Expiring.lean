import Mathlib.Algebra.Order.Field.Rat
import Mathlib.Tactic.Common

/-!
# Keys with a time to live

A key expires when the server's clock has passed its deadline; from then on
every command sees it as absent.
-/

universe u

structure Expiring (A : Type u) where
  value : A
  deadline : ℚ

namespace Expiring

variable {A : Type u}

/-- What a command at `clock` finds under the key. -/
def live (clock : ℚ) : Option (Expiring A) → Option A
  | none => none
  | some k => if k.deadline < clock then none else some k.value

@[simp] theorem live_none (clock : ℚ) : live clock (none : Option (Expiring A)) = none := rfl

theorem live_some {clock : ℚ} {k : Expiring A} (h : clock ≤ k.deadline) :
    live clock (some k) = some k.value := by
  simp [live, Rat.not_lt.mpr h]

theorem stored_of_live {clock : ℚ} {o : Option (Expiring A)} {v : A} (h : live clock o = some v) :
    ∃ k, o = some k ∧ k.value = v ∧ clock ≤ k.deadline := by
  cases o with
  | none => cases h
  | some k =>
    simp only [live] at h
    split at h
    · cases h
    · rename_i alive
      cases h
      exact ⟨k, rfl, rfl, not_lt.mp alive⟩

/-- A dead key stays dead. -/
theorem live_mono {clock later : ℚ} {o : Option (Expiring A)} {v : A} (h : live later o = some v)
    (le : clock ≤ later) : live clock o = some v := by
  obtain ⟨k, rfl, rfl, alive⟩ := stored_of_live h
  exact live_some (le_trans le alive)

/-- The same where the key is gone at its deadline already. -/
def liveBefore (clock : ℚ) : Option (Expiring A) → Option A
  | none => none
  | some k => if clock < k.deadline then some k.value else none

theorem liveBefore_eq_none {clock : ℚ} {k : Expiring A} :
    liveBefore clock (some k) = none ↔ k.deadline ≤ clock := by
  unfold liveBefore
  by_cases live : clock < k.deadline
  · simp [live]
  · simp [not_lt.mp live]

end Expiring
