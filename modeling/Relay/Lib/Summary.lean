import Mathlib.Algebra.BigOperators.Group.List.Lemmas
import Mathlib.Algebra.Order.Field.Rat
import Mathlib.Data.List.Sort
import Mathlib.Data.Rat.Floor
import Mathlib.Tactic.Linarith
import Mathlib.Tactic.Ring

/-!
# Counts and quantiles of a list

What a table of counts says of the keys that were counted, and what an entry of a
sorted list says of how many are below and above it.
-/

namespace Summary

variable {A K : Type*}

/-! Counts -/

section Counts

variable [DecidableEq K] {counts : List (K × Nat)} {keys : List K} {k : K}

/-- Every key once, with how often it was counted. -/
structure Tallies (counts : List (K × Nat)) (keys : List K) : Prop where
  once : (counts.map Prod.fst).Nodup
  listed : ∀ k, k ∈ counts.map Prod.fst ↔ k ∈ keys
  counted : ∀ c ∈ counts, c.2 = keys.count c.1

theorem Tallies.nil : Tallies ([] : List (K × Nat)) [] where
  once := List.nodup_nil
  listed := fun _ => Iff.rfl
  counted := fun _ listed => absurd listed List.not_mem_nil

/-- One more of a key that is in the table. -/
theorem Tallies.again (tallies : Tallies counts keys) (present : k ∈ counts.map Prod.fst) :
    Tallies (counts.map fun c => if c.1 = k then (k, c.2 + 1) else c) (keys ++ [k]) := by
  have same : (counts.map fun c => if c.1 = k then (k, c.2 + 1) else c).map Prod.fst =
      counts.map Prod.fst := by
    rw [List.map_map]
    refine List.map_congr_left (fun c _ => ?_)
    by_cases mine : c.1 = k
    · simp [mine]
    · simp [mine]
  have known : k ∈ keys := (tallies.listed k).mp present
  refine ⟨same ▸ tallies.once, fun k' => ?_, fun c listed => ?_⟩
  · rw [same, tallies.listed, List.mem_append, List.mem_singleton]
    exact ⟨Or.inl, fun either => either.elim id (fun equal => equal ▸ known)⟩
  · obtain ⟨old, before, rfl⟩ := List.mem_map.mp listed
    have count := tallies.counted old before
    by_cases mine : old.1 = k
    · simp [mine, count, List.count_append]
    · simp [mine, count, List.count_append, Ne.symm mine]

/-- The first of a key. -/
theorem Tallies.first (tallies : Tallies counts keys) (absent : k ∉ counts.map Prod.fst) :
    Tallies (counts ++ [(k, 1)]) (keys ++ [k]) := by
  have unknown : k ∉ keys := fun known => absent ((tallies.listed k).mpr known)
  refine ⟨?_, fun k' => ?_, fun c listed => ?_⟩
  · rw [List.map_append, List.map_singleton]
    refine List.nodup_append.mpr
      ⟨tallies.once, List.nodup_singleton k, fun a old b new same => ?_⟩
    rw [same, List.mem_singleton.mp new] at old
    exact absent old
  · rw [List.map_append, List.map_singleton, List.mem_append, List.mem_append, tallies.listed]
  · rcases List.mem_append.mp listed with old | new
    · have ne : c.1 ≠ k := by
        rintro rfl
        exact absent (List.mem_map_of_mem old)
      simp [tallies.counted c old, List.count_append, Ne.symm ne]
    · rw [List.mem_singleton.mp new]
      simp [List.count_append, List.count_eq_zero_of_not_mem unknown]

/-- Nothing is counted twice or left out. -/
theorem Tallies.sum (tallies : Tallies counts keys) :
    (counts.map Prod.snd).sum = keys.length := by
  have each : counts.map Prod.snd = (counts.map Prod.fst).map (fun k => keys.count k) := by
    rw [List.map_map]
    exact List.map_congr_left tallies.counted
  have distinct : (counts.map Prod.fst).Perm keys.dedup :=
    (List.perm_ext_iff_of_nodup tallies.once (List.nodup_dedup keys)).mpr (fun k => by
      rw [tallies.listed, List.mem_dedup])
  rw [each, (distinct.map _).sum_eq]
  exact List.sum_map_count_dedup_eq_length keys

end Counts

/-! Quantiles -/

section Quantiles

variable [LinearOrder A] {l sorted : List A} {i num den : Nat}

/-- A value of the list with at least this share of the list up to it, and the rest of
the list from it on. -/
structure Quantile (l : List A) (num den : Nat) (x : A) : Prop where
  occurs : x ∈ l
  below : num * l.length ≤ den * l.countP (fun y => y ≤ x)
  above : (den - num) * l.length ≤ den * l.countP (fun y => x ≤ y)

theorem succ_le_countP (ordered : sorted.Pairwise (· ≤ ·)) (inside : i < sorted.length) :
    i + 1 ≤ sorted.countP (fun y => y ≤ sorted[i]) := by
  have all : (sorted.take (i + 1)).countP (fun y => y ≤ sorted[i]) = i + 1 := by
    rw [List.countP_eq_length.mpr, List.length_take, min_eq_left inside]
    intro y taken
    obtain ⟨j, before, rfl⟩ := List.mem_take_iff_getElem.mp taken
    have upTo : j ≤ i := by omega
    rcases upTo.lt_or_eq with less | rfl
    · exact decide_eq_true (List.pairwise_iff_getElem.mp ordered j i _ inside less)
    · exact decide_eq_true le_rfl
  exact all ▸ (List.take_sublist (i + 1) sorted).countP_le

theorem sub_le_countP (ordered : sorted.Pairwise (· ≤ ·)) (inside : i < sorted.length) :
    sorted.length - i ≤ sorted.countP (fun y => sorted[i] ≤ y) := by
  have all : (sorted.drop i).countP (fun y => sorted[i] ≤ y) = sorted.length - i := by
    rw [List.countP_eq_length.mpr, List.length_drop]
    intro y dropped
    obtain ⟨j, there, rfl⟩ := List.mem_drop_iff_getElem.mp dropped
    rcases Nat.eq_zero_or_pos j with rfl | later
    · exact decide_eq_true le_rfl
    · have within : i + j < sorted.length := by omega
      exact decide_eq_true (List.pairwise_iff_getElem.mp ordered i (i + j) inside within (by omega))
  exact all ▸ (List.drop_sublist i sorted).countP_le

/-- The entry of the sorted list at about this share of its length. -/
theorem quantile_getElem (perm : sorted.Perm l) (ordered : sorted.Pairwise (· ≤ ·))
    (inside : i < sorted.length) (low : num * sorted.length ≤ den * (i + 1))
    (high : den * i ≤ num * sorted.length) : Quantile l num den sorted[i] where
  occurs := perm.mem_iff.mp (List.getElem_mem inside)
  below := by
    rw [← perm.length_eq, ← perm.countP_eq]
    exact low.trans (Nat.mul_le_mul_left den (succ_le_countP ordered inside))
  above := by
    rw [← perm.length_eq, ← perm.countP_eq, Nat.sub_mul]
    have rest := Nat.mul_le_mul_left den (sub_le_countP ordered inside)
    rw [Nat.mul_sub] at rest
    omega

theorem getElem_last (perm : sorted.Perm l) (ordered : sorted.Pairwise (· ≤ ·))
    (inside : sorted.length - 1 < sorted.length) {x : A} (listed : x ∈ l) :
    x ≤ sorted[sorted.length - 1] := by
  obtain ⟨j, within, rfl⟩ := List.mem_iff_getElem.mp (perm.mem_iff.mpr listed)
  rcases (show j ≤ sorted.length - 1 by omega).lt_or_eq with less | same
  · exact List.pairwise_iff_getElem.mp ordered j _ within inside less
  · simp only [same, le_refl]

end Quantiles

end Summary
