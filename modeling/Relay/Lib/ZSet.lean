import Mathlib.Algebra.Order.Field.Rat
import Mathlib.Data.List.Nodup
import Mathlib.Data.List.Sort
import Mathlib.Order.Basic
import Mathlib.Tactic.Common

/-!
# Sorted sets with rational scores

A sorted set holds every member at most once, which is a field of the
structure. Range queries return members by increasing score, members with equal
scores in the order of the comparison that the caller passes.
-/

universe u

/-- A sorted set; `entries` is kept in the order of insertion. -/
structure ZSet (A : Type u) where
  entries : List (A × ℚ)
  nodup : (entries.map Prod.fst).Nodup

namespace ZSet

variable {A : Type u} [DecidableEq A]

omit [DecidableEq A] in
@[ext] theorem ext {z w : ZSet A} (h : z.entries = w.entries) : z = w := by
  cases z; cases w; cases h; rfl

def empty : ZSet A := ⟨[], List.nodup_nil⟩

def card (z : ZSet A) : Nat := z.entries.length

def score (z : ZSet A) (m : A) : Option ℚ :=
  (z.entries.find? (fun e => e.1 = m)).map Prod.snd

/-- Membership is having a score. -/
def Mem (z : ZSet A) (m : A) : Prop := m ∈ z.entries.map Prod.fst

instance (z : ZSet A) (m : A) : Decidable (z.Mem m) :=
  inferInstanceAs (Decidable (m ∈ z.entries.map Prod.fst))

omit [DecidableEq A] in
theorem nodup_filter (z : ZSet A) (p : A × ℚ → Bool) :
    ((z.entries.filter p).map Prod.fst).Nodup :=
  z.nodup.sublist (List.filter_sublist.map Prod.fst)

/-- ZREM of every entry that fails the test. -/
def keep (z : ZSet A) (p : A × ℚ → Bool) : ZSet A := ⟨z.entries.filter p, z.nodup_filter p⟩

def zrem (z : ZSet A) (m : A) : ZSet A := z.keep (fun e => e.1 ≠ m)

/-- ZREMRANGEBYSCORE key -inf bound. -/
def zremUpTo (z : ZSet A) (bound : ℚ) : ZSet A := z.keep (fun e => bound < e.2)

theorem nodup_zadd (z : ZSet A) (m : A) (s : ℚ) :
    (((z.zrem m).entries ++ [(m, s)]).map Prod.fst).Nodup := by
  rw [List.map_append, List.nodup_append]
  refine ⟨(z.zrem m).nodup, by simp, ?_⟩
  intro a ha b hb same
  simp only [List.map_cons, List.map_nil, List.mem_singleton] at hb
  simp only [zrem, keep, List.mem_map, List.mem_filter] at ha
  obtain ⟨e, ⟨_, ne⟩, rfl⟩ := ha
  simp [same, hb] at ne

/-- ZADD sets the score of a member, present or not. -/
def zadd (z : ZSet A) (m : A) (s : ℚ) : ZSet A :=
  ⟨(z.zrem m).entries ++ [(m, s)], z.nodup_zadd m s⟩

omit [DecidableEq A] in
theorem mem_iff {z : ZSet A} {m : A} : z.Mem m ↔ ∃ s, (m, s) ∈ z.entries := by
  simp [Mem]

omit [DecidableEq A] in
@[simp] theorem not_mem_empty (m : A) : ¬ (empty : ZSet A).Mem m := by simp [Mem, empty]

theorem mem_entries_zrem {z : ZSet A} {m : A} {e : A × ℚ} :
    e ∈ (z.zrem m).entries ↔ e ∈ z.entries ∧ e.1 ≠ m := by
  simp [zrem, keep]

theorem mem_entries_zadd {z : ZSet A} {m : A} {s : ℚ} {e : A × ℚ} :
    e ∈ (z.zadd m s).entries ↔ (e ∈ z.entries ∧ e.1 ≠ m) ∨ e = (m, s) := by
  simp [zadd, mem_entries_zrem]

omit [DecidableEq A] in
theorem mem_of_mem_keep {z : ZSet A} {p : A × ℚ → Bool} {m : A} (h : (z.keep p).Mem m) :
    z.Mem m := by
  obtain ⟨s, listed⟩ := mem_iff.mp h
  exact mem_iff.mpr ⟨s, List.mem_of_mem_filter listed⟩

@[simp] theorem mem_zrem {z : ZSet A} {m a : A} : (z.zrem m).Mem a ↔ z.Mem a ∧ a ≠ m := by
  simp only [mem_iff, mem_entries_zrem, exists_and_right]

@[simp] theorem mem_zadd {z : ZSet A} {m a : A} {s : ℚ} :
    (z.zadd m s).Mem a ↔ z.Mem a ∨ a = m := by
  simp only [mem_iff, mem_entries_zadd, Prod.mk.injEq, exists_or, exists_and_right, exists_and_left,
    exists_eq, and_true]
  by_cases h : a = m <;> simp [h]

theorem score_zrem (z : ZSet A) (m a : A) :
    (z.zrem m).score a = if a = m then none else z.score a := by
  by_cases same : a = m
  · subst same
    rw [if_pos rfl]
    simp [score, zrem, keep, List.find?_eq_none]
  · rw [if_neg same]
    simp only [score, zrem, keep, List.find?_filter]
    congr 2
    funext e
    by_cases own : e.1 = a
    · simp [own, same]
    · simp [own]

/-- Removing an absent member leaves the set as it is. -/
theorem zrem_of_not_mem {z : ZSet A} {m : A} (h : ¬ z.Mem m) : z.zrem m = z := by
  ext1
  simp only [zrem, keep, List.filter_eq_self]
  intro e he
  have : e.1 ≠ m := fun same => h (mem_iff.mpr ⟨e.2, same ▸ he⟩)
  simpa using this

/-- By increasing score, ties in the order `le`. -/
def byScore (le : A → A → Bool) (e f : A × ℚ) : Bool :=
  decide (e.2 < f.2) || (decide (e.2 = f.2) && le e.1 f.1)

/-- ZRANGEBYSCORE key -inf bound LIMIT 0 limit. -/
def rangeUpTo (z : ZSet A) (le : A → A → Bool) (bound : ℚ) (limit : Nat) : List A :=
  (((z.entries.filter (fun e => e.2 ≤ bound)).insertionSort
    (fun e f => byScore le e f = true)).take limit).map Prod.fst

omit [DecidableEq A] in
theorem byScore_le {le : A → A → Bool} {e f : A × ℚ} (h : byScore le e f = true) :
    e.2 ≤ f.2 := by
  simp only [byScore, Bool.or_eq_true, Bool.and_eq_true, decide_eq_true_eq] at h
  rcases h with less | ⟨same, _⟩
  · exact le_of_lt less
  · exact le_of_eq same

omit [DecidableEq A] in
theorem le_of_not_byScore {le : A → A → Bool} {e f : A × ℚ} (h : ¬ byScore le e f = true) :
    f.2 ≤ e.2 := by
  simp only [byScore, Bool.or_eq_true, decide_eq_true_eq, not_or] at h
  exact not_lt.mp h.1

omit [DecidableEq A] in
theorem orderedInsert_sorted (le : A → A → Bool) (e : A × ℚ) {l : List (A × ℚ)}
    (sorted : l.Pairwise (fun e f => e.2 ≤ f.2)) :
    (l.orderedInsert (fun e f => byScore le e f = true) e).Pairwise (fun e f => e.2 ≤ f.2) := by
  induction l with
  | nil => exact List.pairwise_singleton _ _
  | cons f rest ih =>
    obtain ⟨first, later⟩ := List.pairwise_cons.mp sorted
    by_cases before : byScore le e f = true
    · rw [List.orderedInsert_cons, if_pos before]
      have below := byScore_le before
      refine List.pairwise_cons.mpr ⟨fun g listed => ?_, sorted⟩
      rcases List.mem_cons.mp listed with rfl | listed
      · exact below
      · exact le_trans below (first g listed)
    · rw [List.orderedInsert_cons, if_neg before]
      refine List.pairwise_cons.mpr ⟨fun g listed => ?_, ih later⟩
      rcases (List.mem_orderedInsert _).mp listed with rfl | listed
      · exact le_of_not_byScore before
      · exact first g listed

/-- The entries that a range query up to `bound` is about. -/
def upTo (z : ZSet A) (bound : ℚ) : List (A × ℚ) := z.entries.filter (fun e => e.2 ≤ bound)

/-- The entries of `rangeUpTo`. -/
def lowestUpTo (z : ZSet A) (le : A → A → Bool) (bound : ℚ) (limit : Nat) : List (A × ℚ) :=
  ((z.upTo bound).insertionSort (fun e f => byScore le e f = true)).take limit

omit [DecidableEq A] in
theorem sorted_upTo (z : ZSet A) (le : A → A → Bool) (bound : ℚ) :
    ((z.upTo bound).insertionSort (fun e f => byScore le e f = true)).Pairwise
      (fun e f => e.2 ≤ f.2) := by
  induction z.upTo bound with
  | nil => exact List.Pairwise.nil
  | cons e rest ih => exact orderedInsert_sorted le e ih

omit [DecidableEq A] in
theorem length_lowestUpTo (z : ZSet A) (le : A → A → Bool) (bound : ℚ) (limit : Nat) :
    (z.lowestUpTo le bound limit).length = min limit (z.upTo bound).length := by
  rw [lowestUpTo, List.length_take, List.length_insertionSort]

omit [DecidableEq A] in
theorem mem_lowestUpTo {z : ZSet A} {le : A → A → Bool} {bound : ℚ} {limit : Nat}
    {e : A × ℚ} (h : e ∈ z.lowestUpTo le bound limit) : e ∈ z.entries ∧ e.2 ≤ bound := by
  have inSorted := List.mem_of_mem_take h
  rw [List.mem_insertionSort, upTo, List.mem_filter] at inSorted
  exact ⟨inSorted.1, by simpa using inSorted.2⟩

omit [DecidableEq A] in
theorem lowestUpTo_sorted (z : ZSet A) (le : A → A → Bool) (bound : ℚ) (limit : Nat) :
    (z.lowestUpTo le bound limit).Pairwise (fun e f => e.2 ≤ f.2) :=
  (z.sorted_upTo le bound).sublist (List.take_sublist _ _)

omit [DecidableEq A] in
/-- What the limit leaves out has no lower score than what it lets in. -/
theorem lowestUpTo_lowest {z : ZSet A} {le : A → A → Bool} {bound : ℚ} {limit : Nat}
    {e f : A × ℚ} (taken : e ∈ z.lowestUpTo le bound limit) (due : f ∈ z.upTo bound)
    (left : f ∉ z.lowestUpTo le bound limit) : e.2 ≤ f.2 := by
  have sorted := z.sorted_upTo le bound
  have listed := (List.mem_insertionSort (fun e f => byScore le e f = true)).mpr due
  rw [← List.take_append_drop limit (List.insertionSort _ _)] at sorted listed
  have dropped := (List.mem_append.mp listed).resolve_left left
  exact (List.pairwise_append.mp sorted).2.2 e taken f dropped

omit [DecidableEq A] in
theorem nodup_rangeUpTo (z : ZSet A) (le : A → A → Bool) (bound : ℚ) (limit : Nat) :
    (z.rangeUpTo le bound limit).Nodup := by
  have sorted := (List.perm_insertionSort (fun e f => byScore le e f = true) (z.upTo bound)).map
    Prod.fst
  exact (sorted.nodup_iff.mpr (z.nodup_filter _)).sublist
    ((List.take_sublist _ _).map Prod.fst)

omit [DecidableEq A] in
theorem mem_rangeUpTo {z : ZSet A} {le : A → A → Bool} {bound : ℚ} {limit : Nat} {m : A}
    (h : m ∈ z.rangeUpTo le bound limit) : ∃ s, (m, s) ∈ z.entries ∧ s ≤ bound := by
  obtain ⟨e, he, rfl⟩ := List.mem_map.mp h
  have inSorted := List.mem_of_mem_take he
  rw [List.mem_insertionSort, List.mem_filter] at inSorted
  exact ⟨e.2, inSorted.1, by simpa using inSorted.2⟩

end ZSet
