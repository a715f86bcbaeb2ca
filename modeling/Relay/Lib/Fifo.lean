import Mathlib.Data.List.Basic
import Mathlib.Tactic.Common

/-!
# Queues that are served in the order of arrival

The elements are pushed at the end; one may be removed, wherever it stands, once
it has been dismissed. A queue is in order when it agrees with the list of all
pushes on what is not dismissed. Elements may be pushed again.
-/

namespace Fifo

universe u

variable {A : Type u}

def InOrder (dismissed : A → Bool) (pushed queue : List A) : Prop :=
  queue.filter (fun a => !dismissed a) = pushed.filter (fun a => !dismissed a)

/-- `a` was pushed before `b` was pushed for the first time. -/
def Before (pushed : List A) (a b : A) : Prop :=
  ∃ earlier later, pushed = earlier ++ a :: later ∧ b ∉ earlier ∧ b ∈ later

variable {dismissed dismissed' : A → Bool} {pushed queue : List A} {a b : A}

theorem inOrder_nil : InOrder dismissed [] [] := rfl

theorem InOrder.push (order : InOrder dismissed pushed queue) (a : A) :
    InOrder dismissed (pushed ++ [a]) (queue ++ [a]) := by
  unfold InOrder at order ⊢
  rw [List.filter_append, List.filter_append, order]

/-- Dismissing more elements keeps the order of the others. -/
theorem InOrder.dismiss (order : InOrder dismissed pushed queue)
    (more : ∀ a, dismissed a = true → dismissed' a = true) :
    InOrder dismissed' pushed queue := by
  have twice : ∀ l : List A, l.filter (fun a => !dismissed' a) =
      (l.filter (fun a => !dismissed a)).filter (fun a => !dismissed' a) := by
    intro l
    rw [List.filter_filter]
    apply List.filter_congr
    intro a _
    cases gone : dismissed a with
    | false => simp
    | true => simp [more a gone]
  unfold InOrder at order ⊢
  rw [twice queue, twice pushed, order]

theorem filter_erase [DecidableEq A] {p : A → Bool} (fails : p a = false) (l : List A) :
    (l.erase a).filter p = l.filter p := by
  induction l with
  | nil => rfl
  | cons b rest ih =>
    by_cases same : b = a
    · subst same
      simp [fails]
    · rw [List.erase_cons_tail (by simpa using same), List.filter_cons, List.filter_cons, ih]

theorem InOrder.remove [DecidableEq A] (order : InOrder dismissed pushed queue)
    (gone : dismissed a = true) : InOrder dismissed pushed (queue.erase a) := by
  unfold InOrder at order ⊢
  rw [filter_erase (by simp [gone]), order]

theorem Before.mem (before : Before pushed a b) : b ∈ pushed := by
  obtain ⟨earlier, later, rfl, _, listed⟩ := before
  exact List.mem_append_right _ (List.mem_cons_of_mem _ listed)

/-- What is pushed afterwards does not come before. -/
theorem Before.of_append {more : List A} (before : Before (pushed ++ more) a b)
    (listed : b ∈ pushed) (ne : a ≠ b) : Before pushed a b := by
  obtain ⟨earlier, later, same, absent, _⟩ := before
  rcases List.append_eq_append_iff.mp same with ⟨rest, rfl, _⟩ | ⟨rest, rfl, split⟩
  · exact absurd (List.mem_append_left _ listed) absent
  · cases rest with
    | nil => exact absurd (by simpa using listed) absent
    | cons c tail =>
      obtain ⟨rfl, _⟩ := List.cons.inj split
      refine ⟨earlier, tail, rfl, absent, ?_⟩
      rcases List.mem_append.mp listed with old | old
      · exact absurd old absent
      · rcases List.mem_cons.mp old with same | old
        · exact absurd same.symm ne
        · exact old

/-- When an element that is not dismissed is at the head, or the queue is empty
although it was pushed, everything pushed before it has been dismissed. -/
theorem InOrder.head (order : InOrder dismissed pushed queue)
    (head : ∀ c, queue.head? = some c → c = b) (waits : dismissed b = false)
    (before : Before pushed a b) (ne : a ≠ b) : dismissed a = true := by
  have queued : b ∈ queue := by
    have kept : b ∈ queue.filter (fun a => !dismissed a) := by
      rw [order, List.mem_filter]
      exact ⟨before.mem, by simp [waits]⟩
    exact List.mem_of_mem_filter kept
  obtain ⟨earlier, later, rfl, absent, _⟩ := before
  cases queue with
  | nil => exact absurd queued List.not_mem_nil
  | cons c rest =>
    have same : c = b := head c rfl
    subst same
    by_contra stays
    -- the first of the pushes that is not dismissed would be `b`
    unfold InOrder at order
    rw [List.filter_cons_of_pos (by simp [waits]), List.filter_append,
      List.filter_cons_of_pos (by simpa using stays)] at order
    cases first : earlier.filter (fun a => !dismissed a) with
    | nil =>
      rw [first, List.nil_append] at order
      exact ne (List.cons.inj order).1.symm
    | cons d more =>
      rw [first, List.cons_append] at order
      have listed : d ∈ earlier.filter (fun a => !dismissed a) := first ▸ List.mem_cons_self
      rw [← (List.cons.inj order).1] at listed
      exact absent (List.mem_of_mem_filter listed)

end Fifo
