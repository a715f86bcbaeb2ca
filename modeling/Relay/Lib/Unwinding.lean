import Mathlib.Tactic.Common

/-!
# What the actions of others let through

A machine answers each action and goes on to a next state. Some actions are one's
own. If the others leave what one sees of the state as it is, and one's own do and
answer the same wherever one sees the same, then nothing that others do, in between
or before, is ever seen.
-/

namespace Unwinding

universe u v w

variable {S : Type u} {A : Type v} {O : Type w}

section Trace

variable (handle : S → A → S × O) (guard : S → A → Prop)

/-- A run, with every action and its answer. -/
inductive Trace : S → List (A × O) → S → Prop
  | nil {s : S} : Trace s [] s
  | cons {s t : S} {a : A} {more : List (A × O)} (admitted : guard s a)
      (rest : Trace (handle s a).1 more t) : Trace s ((a, (handle s a).2) :: more) t

/-- The actions that are one's own, with their answers. -/
def mine (own : A → Bool) (trace : List (A × O)) : List (A × O) :=
  trace.filter (fun e => own e.1)

/-- What a single action must keep. -/
structure Unwinds (own : A → Bool) (inv : S → Prop) (alike : S → S → Prop) : Prop where
  symm : ∀ {s s'}, alike s s' → alike s' s
  kept : ∀ {s a}, inv s → guard s a → inv (handle s a).1
  others : ∀ {s s' a}, inv s → guard s a → own a = false → alike s s' →
    alike (handle s a).1 s'
  owned : ∀ {s s' a}, inv s → inv s' → guard s a → guard s' a → own a = true →
    alike s s' →
    (handle s a).2 = (handle s' a).2 ∧ alike (handle s a).1 (handle s' a).1

end Trace

variable {handle : S → A → S × O} {guard : S → A → Prop} {own : A → Bool}
    {inv : S → Prop}
  {alike : S → S → Prop} {s s' t t' : S} {trace trace' : List (A × O)}

theorem Trace.invariant {I : S → Prop} (run : Trace handle guard s trace t) (start : I s)
    (kept : ∀ {s a}, I s → guard s a → I (handle s a).1) : I t := by
  induction run with
  | nil => exact start
  | cons admitted _ ih => exact ih (kept start admitted)

theorem mine_cons_own {a : A} {o : O} (owned : own a = true) :
    mine own ((a, o) :: trace) = (a, o) :: mine own trace := List.filter_cons_of_pos owned

theorem mine_cons_other {a : A} {o : O} (other : own a = false) :
    mine own ((a, o) :: trace) = mine own trace :=
  List.filter_cons_of_neg (Bool.eq_false_iff.mp other)

/-- A run of others only. -/
theorem Unwinds.skips (unwinds : Unwinds handle guard own inv alike)
    (run : Trace handle guard s trace t) (start : inv s) (same : alike s s')
    (none : mine own trace = []) : alike t s' := by
  induction run with
  | nil => exact same
  | @cons s t a more admitted rest ih =>
    cases owned : own a with
    | true =>
      rw [mine_cons_own owned] at none
      cases none
    | false =>
      rw [mine_cons_other owned] at none
      exact ih (unwinds.kept start admitted) (unwinds.others start admitted owned same) none

/-- A run up to the first action of one's own. -/
theorem Unwinds.meets (unwinds : Unwinds handle guard own inv alike) {a : A} {rest : List A}
    (run : Trace handle guard s trace t) (start : inv s) (same : alike s s')
    (first : (mine own trace).map Prod.fst = a :: rest) :
    ∃ mid more, inv mid ∧ alike mid s' ∧ guard mid a ∧
      Trace handle guard (handle mid a).1 more t ∧
      mine own trace = (a, (handle mid a).2) :: mine own more := by
  induction run with
  | nil => cases first
  | @cons s t b more admitted run ih =>
    cases owned : own b with
    | false =>
      rw [mine_cons_other owned] at first ⊢
      exact ih (unwinds.kept start admitted) (unwinds.others start admitted owned same) first
    | true =>
      rw [mine_cons_own owned] at first ⊢
      obtain ⟨rfl, _⟩ := List.cons.inj first
      exact ⟨s, more, start, same, admitted, run, rfl⟩

/-- Two runs with the same actions of one's own, whatever the others do in each. -/
theorem Unwinds.noninterference (unwinds : Unwinds handle guard own inv alike)
    (run : Trace handle guard s trace t) (run' : Trace handle guard s' trace' t') (start : inv s)
    (start' : inv s') (same : alike s s')
    (actions : (mine own trace).map Prod.fst = (mine own trace').map Prod.fst) :
    mine own trace = mine own trace' ∧ alike t t' := by
  induction run generalizing s' trace' with
  | nil =>
    have none : mine own trace' = [] := List.map_eq_nil_iff.mp actions.symm
    exact ⟨none.symm, unwinds.symm (unwinds.skips run' start' (unwinds.symm same) none)⟩
  | @cons s t a more admitted run ih =>
    cases owned : own a with
    | false =>
      rw [mine_cons_other owned] at actions ⊢
      exact ih run' (unwinds.kept start admitted) start'
        (unwinds.others start admitted owned same) actions
    | true =>
      rw [mine_cons_own owned] at actions ⊢
      obtain ⟨mid, more', inside, there, guarded, rest, first⟩ :=
        unwinds.meets run' start' (unwinds.symm same) actions.symm
      obtain ⟨answers, after⟩ :=
        unwinds.owned start inside admitted guarded owned (unwinds.symm there)
      rw [first, List.map_cons, List.map_cons] at actions
      obtain ⟨later, last⟩ := ih rest (unwinds.kept start admitted)
        (unwinds.kept inside guarded) after (List.cons.inj actions).2
      rw [first, later, answers]
      exact ⟨rfl, last⟩

end Unwinding
