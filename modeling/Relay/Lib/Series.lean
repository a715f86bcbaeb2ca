import Mathlib.Logic.Function.Basic
import Mathlib.Tactic.Common

/-!
# Series that keep their last value

A labelled gauge exports a series for every label that has ever been set, with
the value set last. A sweep sets the series of some labels; what it does not meet
stays as it was.
-/

universe u v

/-- The value of every series that is exported. -/
def Series (K : Type u) (V : Type v) := K → Option V

namespace Series

variable {K : Type u} {V : Type v}

def empty : Series K V := fun _ => none

/-- Every exported series has the value that `now` gives its label. -/
def Shows (g : Series K V) (now : K → V) : Prop := ∀ k v, g k = some v → v = now k

@[simp] theorem shows_empty (now : K → V) : (empty : Series K V).Shows now := by
  intro k v exported
  cases exported

variable [DecidableEq K]

def set (g : Series K V) (k : K) (v : V) : Series K V := Function.update g k (some v)

@[simp] theorem set_self (g : Series K V) (k : K) (v : V) : g.set k v k = some v :=
  Function.update_self ..

theorem set_other {k k' : K} (ne : k' ≠ k) (g : Series K V) (v : V) : g.set k v k' = g k' :=
  Function.update_of_ne ne ..

/-- Sets the series of the labels, one after the other. -/
def sweep (g : Series K V) (labels : List K) (now : K → V) : Series K V :=
  labels.foldl (fun g k => g.set k (now k)) g

/-- What a sweep meets has the present value, the rest its last one. -/
theorem sweep_apply (g : Series K V) (labels : List K) (now : K → V) (k : K) :
    g.sweep labels now k = if k ∈ labels then some (now k) else g k := by
  induction labels generalizing g with
  | nil => rfl
  | cons first rest ih =>
    change (g.set first (now first)).sweep rest now k = _
    rw [ih]
    by_cases met : k ∈ rest
    · rw [if_pos met, if_pos (List.mem_cons_of_mem first met)]
    · rw [if_neg met]
      by_cases same : k = first
      · subst same
        rw [set_self, if_pos List.mem_cons_self]
      · have unmet : k ∉ first :: rest := List.not_mem_cons_of_ne_of_not_mem same met
        rw [set_other same, if_neg unmet]

/-- After a sweep every series is right exactly when the ones left out were. -/
theorem shows_sweep {g : Series K V} {labels : List K} {now : K → V} :
    (g.sweep labels now).Shows now ↔ ∀ k v, g k = some v → k ∉ labels → v = now k := by
  constructor
  · intro shows k v exported unmet
    refine shows k v ?_
    rw [sweep_apply, if_neg unmet, exported]
  · intro others k v exported
    rw [sweep_apply] at exported
    by_cases met : k ∈ labels
    · rw [if_pos met] at exported
      exact (Option.some.inj exported).symm
    · rw [if_neg met] at exported
      exact others k v exported met

/-- A property of all exported values, if the swept ones have it. -/
theorem sweep_all {P : K → V → Prop} {g : Series K V} {labels : List K} {now : K → V}
    (before : ∀ k v, g k = some v → P k v) (swept : ∀ k ∈ labels, P k (now k)) :
    ∀ k v, g.sweep labels now k = some v → P k v := by
  intro k v exported
  rw [sweep_apply] at exported
  by_cases met : k ∈ labels
  · rw [if_pos met] at exported
    exact Option.some.inj exported ▸ swept k met
  · rw [if_neg met] at exported
    exact before k v exported

end Series
