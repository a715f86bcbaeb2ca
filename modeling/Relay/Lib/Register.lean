import Mathlib.Data.List.Nodup
import Mathlib.Data.List.Range
import Mathlib.Logic.Function.Basic
import Mathlib.Tactic.Common

/-!
# Numbered records

A counter hands out numbers. Whoever draws one writes a record under it and files
the record later. As long as nobody lets go of a number, the filed records and
the numbers still in somebody's hands are together one to the count.
-/

universe u v

/-- A drawn number, first without and then with its record. -/
inductive Register.Slip (R : Type v) where
  | drawn (n : Nat)
  | written (r : R)

structure Register (W : Type u) (R : Type v) where
  count : Nat
  hands : W → Option (Register.Slip R)
  written : List R
  filed : List R

namespace Register

variable {W : Type u} {R : Type v} (number : R → Nat)

def numberOf : Slip R → Nat
  | .drawn n => n
  | .written r => number r

def numbers (l : Register W R) : List Nat := l.filed.map number

def Holds (l : Register W R) (w : W) (n : Nat) : Prop :=
  ∃ s, l.hands w = some s ∧ numberOf number s = n

/-- A number is drawn, its record is written, the record is filed. -/
inductive Step [DecidableEq W] (l : Register W R) : Register W R → Prop where
  | stay : Step l l
  | draw {w : W} (free : l.hands w = none) :
      Step l { l with
        count := l.count + 1
        hands := Function.update l.hands w (some (.drawn (l.count + 1))) }
  | write {w : W} {r : R} (holds : l.hands w = some (.drawn (number r))) :
      Step l { l with
        hands := Function.update l.hands w (some (.written r))
        written := r :: l.written }
  | file {w : W} {r : R} (holds : l.hands w = some (.written r)) :
      Step l { l with
        hands := Function.update l.hands w none
        filed := l.filed ++ [r] }

structure Balanced (l : Register W R) : Prop where
  held : ∀ w n, l.Holds number w n → 1 ≤ n ∧ n ≤ l.count ∧ n ∉ l.numbers number
  apart : ∀ w w' n, l.Holds number w n → l.Holds number w' n → w = w'
  filed : ∀ n ∈ l.numbers number, 1 ≤ n ∧ n ≤ l.count
  distinct : (l.numbers number).Nodup
  covered : ∀ n, 1 ≤ n → n ≤ l.count → n ∈ l.numbers number ∨
    ∃ w, l.Holds number w n
  written : ∀ r, r ∈ l.written ↔ r ∈ l.filed ∨ ∃ w, l.hands w = some (.written r)
  once : l.written.Nodup

variable {number}

theorem balanced_empty :
    Balanced number (⟨0, fun _ => none, [], []⟩ : Register W R) where
  held := by
    rintro w n ⟨s, none, _⟩
    cases none
  apart := by
    rintro w w' n ⟨s, none, _⟩
    cases none
  filed := fun n listed => absurd listed List.not_mem_nil
  distinct := List.nodup_nil
  covered := fun n low high => by simp only at high; omega
  written := by simp
  once := List.nodup_nil

section Steps

variable [DecidableEq W] {l : Register W R} {w : W} {r : R}

theorem update_eq_some {hands : W → Option (Slip R)} {o : Option (Slip R)} {w' : W} {s : Slip R} :
    Function.update hands w o w' = some s ↔
      (w' = w ∧ o = some s) ∨ (w' ≠ w ∧ hands w' = some s) := by
  by_cases same : w' = w
  · subst same
    simp
  · simp [same]

theorem Balanced.draw (old : Balanced number l) (free : l.hands w = none) :
    Balanced number { l with
      count := l.count + 1
      hands := Function.update l.hands w (some (.drawn (l.count + 1))) } := by
  have back : ∀ {w' : W} {n : Nat}, Holds number { l with
      count := l.count + 1
      hands := Function.update l.hands w (some (.drawn (l.count + 1))) } w' n →
      (w' = w ∧ n = l.count + 1) ∨ l.Holds number w' n := by
    rintro w' n ⟨s, hands, rfl⟩
    rcases update_eq_some.mp hands with ⟨same, drawn⟩ | ⟨_, before⟩
    · cases drawn
      exact Or.inl ⟨same, rfl⟩
    · exact Or.inr ⟨s, before, rfl⟩
  refine
    { held := ?held, apart := ?apart, filed := ?filed, distinct := old.distinct,
      covered := ?covered, written := ?written, once := old.once }
  case held =>
    intro w' n holds
    rcases back holds with ⟨_, rfl⟩ | before
    · refine ⟨by omega, Nat.le_refl _, fun listed => ?_⟩
      have bound := (old.filed _ listed).2
      omega
    · obtain ⟨low, high, fresh⟩ := old.held w' n before
      exact ⟨low, Nat.le_succ_of_le high, fresh⟩
  case apart =>
    intro w₁ w₂ n first second
    rcases back first with ⟨rfl, rfl⟩ | before
    · rcases back second with ⟨rfl, _⟩ | before'
      · rfl
      · have bound := (old.held _ _ before').2.1
        omega
    · rcases back second with ⟨rfl, rfl⟩ | before'
      · have bound := (old.held _ _ before).2.1
        omega
      · exact old.apart w₁ w₂ n before before'
  case filed =>
    intro n listed
    obtain ⟨low, high⟩ := old.filed n listed
    exact ⟨low, Nat.le_succ_of_le high⟩
  case covered =>
    intro n low high
    by_cases new : n = l.count + 1
    · refine Or.inr ⟨w, .drawn (l.count + 1), Function.update_self _ _ _, new.symm⟩
    · refine (old.covered n low (by simp only at high; omega)).imp_right ?_
      rintro ⟨w', s, holds, same⟩
      refine ⟨w', s, update_eq_some.mpr (Or.inr ⟨?_, holds⟩), same⟩
      rintro rfl
      rw [free] at holds
      cases holds
  case written =>
    intro r'
    rw [old.written r']
    refine or_congr_right ⟨?_, ?_⟩
    · rintro ⟨w', holds⟩
      refine ⟨w', update_eq_some.mpr (Or.inr ⟨?_, holds⟩)⟩
      rintro rfl
      rw [free] at holds
      cases holds
    · rintro ⟨w', holds⟩
      rcases update_eq_some.mp holds with ⟨_, drawn⟩ | ⟨_, before⟩
      · cases drawn
      · exact ⟨w', before⟩

theorem Balanced.write (old : Balanced number l)
    (holds : l.hands w = some (.drawn (number r))) :
    Balanced number { l with
      hands := Function.update l.hands w (some (.written r))
      written := r :: l.written } := by
  have back : ∀ {w' : W} {n : Nat}, Holds number { l with
      hands := Function.update l.hands w (some (.written r))
      written := r :: l.written } w' n ↔ l.Holds number w' n := by
    intro w' n
    by_cases same : w' = w
    · subst same
      simp only [Holds, Function.update_self, holds]
      constructor
      · rintro ⟨_, ⟨⟩, number⟩
        exact ⟨_, rfl, number⟩
      · rintro ⟨_, ⟨⟩, number⟩
        exact ⟨_, rfl, number⟩
    · simp only [Holds, Function.update_of_ne same]
  have own : l.Holds number w (number r) := ⟨_, holds, rfl⟩
  refine
    { held := ?held, apart := ?apart, filed := old.filed, distinct := old.distinct,
      covered := ?covered, written := ?written, once := ?once }
  case held =>
    exact fun w' n held => old.held w' n (back.mp held)
  case apart =>
    exact fun w₁ w₂ n first second => old.apart w₁ w₂ n (back.mp first) (back.mp second)
  case covered =>
    intro n low high
    exact (old.covered n low high).imp_right (fun ⟨w', held⟩ => ⟨w', back.mpr held⟩)
  case written =>
    intro r'
    rw [List.mem_cons, old.written r']
    constructor
    · rintro (rfl | filed | ⟨w', written⟩)
      · exact Or.inr ⟨w, Function.update_self _ _ _⟩
      · exact Or.inl filed
      · refine Or.inr ⟨w', update_eq_some.mpr (Or.inr ⟨?_, written⟩)⟩
        rintro rfl
        rw [holds] at written
        cases written
    · rintro (filed | ⟨w', written⟩)
      · exact Or.inr (Or.inl filed)
      · rcases update_eq_some.mp written with ⟨_, same⟩ | ⟨_, before⟩
        · cases same
          exact Or.inl rfl
        · exact Or.inr (Or.inr ⟨w', before⟩)
  case once =>
    refine List.nodup_cons.mpr ⟨fun again => ?_, old.once⟩
    rcases (old.written r).mp again with filed | ⟨w', written⟩
    · exact (old.held w _ own).2.2 (List.mem_map_of_mem filed)
    · cases old.apart w w' _ own ⟨_, written, rfl⟩
      rw [holds] at written
      cases written

theorem Balanced.file (old : Balanced number l) (holds : l.hands w = some (.written r)) :
    Balanced number { l with
      hands := Function.update l.hands w none
      filed := l.filed ++ [r] } := by
  have back : ∀ {w' : W} {n : Nat}, Holds number { l with
      hands := Function.update l.hands w none
      filed := l.filed ++ [r] } w' n ↔ w' ≠ w ∧ l.Holds number w' n := by
    intro w' n
    simp only [Holds, update_eq_some]
    constructor
    · rintro ⟨s, ⟨_, none⟩ | ⟨other, before⟩, same⟩
      · cases none
      · exact ⟨other, s, before, same⟩
    · rintro ⟨other, s, before, same⟩
      exact ⟨s, Or.inr ⟨other, before⟩, same⟩
  have own : l.Holds number w (number r) := ⟨_, holds, rfl⟩
  have numbers : ∀ n, n ∈ numbers number { l with
      hands := Function.update l.hands w none
      filed := l.filed ++ [r] } ↔ n ∈ l.numbers number ∨ n = number r := by
    intro n
    simp [Register.numbers]
  refine
    { held := ?held, apart := ?apart, filed := ?filed, distinct := ?distinct,
      covered := ?covered, written := ?written, once := old.once }
  case held =>
    intro w' n held
    obtain ⟨other, before⟩ := back.mp held
    obtain ⟨low, high, fresh⟩ := old.held w' n before
    refine ⟨low, high, fun listed => ?_⟩
    rcases (numbers n).mp listed with filed | rfl
    · exact fresh filed
    · exact other (old.apart w' w _ before own)
  case apart =>
    exact fun w₁ w₂ n first second => old.apart w₁ w₂ n (back.mp first).2 (back.mp second).2
  case filed =>
    intro n listed
    rcases (numbers n).mp listed with filed | rfl
    · exact old.filed n filed
    · exact ⟨(old.held w _ own).1, (old.held w _ own).2.1⟩
  case distinct =>
    change ((l.filed ++ [r]).map number).Nodup
    rw [List.map_append, List.map_singleton, ← List.concat_eq_append]
    exact old.distinct.concat (old.held w _ own).2.2
  case covered =>
    intro n low high
    rcases old.covered n low high with filed | ⟨w', held⟩
    · exact Or.inl ((numbers n).mpr (Or.inl filed))
    · by_cases same : w' = w
      · subst same
        obtain ⟨s, slip, rfl⟩ := held
        rw [holds] at slip
        cases slip
        exact Or.inl ((numbers _).mpr (Or.inr rfl))
      · exact Or.inr ⟨w', back.mpr ⟨same, held⟩⟩
  case written =>
    intro r'
    rw [old.written r', List.mem_append, List.mem_singleton, or_assoc]
    refine or_congr_right ⟨?_, ?_⟩
    · rintro ⟨w', written⟩
      by_cases same : w' = w
      · subst same
        rw [holds] at written
        cases written
        exact Or.inl rfl
      · exact Or.inr ⟨w', update_eq_some.mpr (Or.inr ⟨same, written⟩)⟩
    · rintro (rfl | ⟨w', written⟩)
      · exact ⟨w, holds⟩
      · rcases update_eq_some.mp written with ⟨_, none⟩ | ⟨_, before⟩
        · cases none
        · exact ⟨w', before⟩

theorem Balanced.step {l' : Register W R} (old : Balanced number l) (step : Step number l l') :
    Balanced number l' := by
  cases step with
  | stay => exact old
  | draw free => exact old.draw free
  | write holds => exact old.write holds
  | file holds => exact old.file holds

end Steps

/-- With nothing in hand, the filed records are numbered one to the count. -/
theorem Balanced.numbers_perm {l : Register W R} (balanced : Balanced number l)
    (idle : ∀ w, l.hands w = none) : (l.numbers number).Perm (List.range' 1 l.count) := by
  refine (List.perm_ext_iff_of_nodup balanced.distinct List.nodup_range').mpr (fun n => ?_)
  rw [List.mem_range'_1]
  constructor
  · intro listed
    obtain ⟨low, high⟩ := balanced.filed n listed
    omega
  · rintro ⟨low, high⟩
    refine (balanced.covered n low (by omega)).resolve_right ?_
    rintro ⟨w, s, holds, _⟩
    rw [idle w] at holds
    cases holds

/-- With nothing in hand, every record that was written has been filed once. -/
theorem Balanced.filed_perm {l : Register W R} (balanced : Balanced number l)
    (idle : ∀ w, l.hands w = none) : l.filed.Perm l.written := by
  refine (List.perm_ext_iff_of_nodup balanced.distinct.of_map balanced.once).mpr (fun r => ?_)
  rw [balanced.written r]
  refine ⟨Or.inl, fun either => either.resolve_right ?_⟩
  rintro ⟨w, holds⟩
  rw [idle w] at holds
  cases holds

end Register
