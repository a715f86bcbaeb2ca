import Mathlib.Data.List.Nodup
import Mathlib.Data.Rat.Defs
import Mathlib.Tactic.Common

/-!
# An append-only log with one consumer group

Entry ids are positions in the log. The group has read every entry below
`lastDelivered`; of these the pending list holds the entries not acknowledged
yet, each with the consumer it was last given to and the time of that. Entries
are never trimmed.
-/

universe u

structure PendingEntry where
  id : Nat
  consumer : Nat
  since : ℚ
  deriving DecidableEq

structure StreamLog (F : Type u) where
  entries : List F
  lastDelivered : Nat
  pending : List PendingEntry
  delivered_le : lastDelivered ≤ entries.length
  pending_lt : ∀ p ∈ pending, p.id < lastDelivered
  pending_nodup : (pending.map PendingEntry.id).Nodup

namespace StreamLog

variable {F : Type u}

def empty : StreamLog F := ⟨[], 0, [], Nat.le_refl 0, by simp, List.nodup_nil⟩

def xadd (s : StreamLog F) (f : F) : StreamLog F where
  entries := s.entries ++ [f]
  lastDelivered := s.lastDelivered
  pending := s.pending
  delivered_le := by
    have := s.delivered_le
    simp only [List.length_append, List.length_singleton]
    omega
  pending_lt := s.pending_lt
  pending_nodup := s.pending_nodup

/-- XREADGROUP of the next entry that no consumer has read. -/
def xreadgroup (s : StreamLog F) (consumer : Nat) (now : ℚ) : StreamLog F :=
  if h : s.lastDelivered < s.entries.length then
    { entries := s.entries
      lastDelivered := s.lastDelivered + 1
      pending := s.pending ++ [⟨s.lastDelivered, consumer, now⟩]
      delivered_le := h
      pending_lt := by
        intro p hp
        rcases List.mem_append.mp hp with hp | hp
        · exact Nat.lt_succ_of_lt (s.pending_lt p hp)
        · rw [List.mem_singleton.mp hp]; exact Nat.lt_succ_self _
      pending_nodup := by
        rw [List.map_append, List.nodup_append]
        refine ⟨s.pending_nodup, by simp, ?_⟩
        intro a ha b hb
        obtain ⟨p, hp, rfl⟩ := List.mem_map.mp ha
        have below := s.pending_lt p hp
        simp only [List.map_cons, List.map_nil, List.mem_singleton] at hb
        omega }
  else s

def xack (s : StreamLog F) (id : Nat) : StreamLog F where
  entries := s.entries
  lastDelivered := s.lastDelivered
  pending := s.pending.filter (fun p => p.id ≠ id)
  delivered_le := s.delivered_le
  pending_lt := fun p hp => s.pending_lt p (List.mem_of_mem_filter hp)
  pending_nodup := s.pending_nodup.sublist (List.filter_sublist.map _)

def PendingEntry.claimBy (consumer : Nat) (now : ℚ) (ids : List Nat) (p : PendingEntry) :
    PendingEntry := if p.id ∈ ids then ⟨p.id, consumer, now⟩ else p

theorem PendingEntry.claimBy_id (consumer : Nat) (now : ℚ) (ids : List Nat) (p : PendingEntry) :
    (PendingEntry.claimBy consumer now ids p).id = p.id := by
  unfold PendingEntry.claimBy
  split <;> rfl

/-- XAUTOCLAIM of the given entries: they change hands and their idle time restarts. -/
def xclaim (s : StreamLog F) (consumer : Nat) (now : ℚ) (ids : List Nat) : StreamLog F where
  entries := s.entries
  lastDelivered := s.lastDelivered
  pending := s.pending.map (PendingEntry.claimBy consumer now ids)
  delivered_le := s.delivered_le
  pending_lt := by
    intro p hp
    obtain ⟨q, hq, rfl⟩ := List.mem_map.mp hp
    rw [PendingEntry.claimBy_id]
    exact s.pending_lt q hq
  pending_nodup := by
    have same : PendingEntry.id ∘ PendingEntry.claimBy consumer now ids = PendingEntry.id :=
      funext (PendingEntry.claimBy_id consumer now ids)
    rw [List.map_map, same]
    exact s.pending_nodup

/-- A pending entry idle for at least `minIdle`. -/
def Stale (s : StreamLog F) (minIdle now : ℚ) (id : Nat) : Prop :=
  ∃ p ∈ s.pending, p.id = id ∧ minIdle ≤ now - p.since

instance (s : StreamLog F) (minIdle now : ℚ) (id : Nat) : Decidable (s.Stale minIdle now id) :=
  inferInstanceAs (Decidable (∃ p ∈ s.pending, p.id = id ∧ minIdle ≤ now - p.since))

def Unread (s : StreamLog F) (id : Nat) : Prop := s.lastDelivered ≤ id ∧ id < s.entries.length

def IsPending (s : StreamLog F) (id : Nat) : Prop := id ∈ s.pending.map PendingEntry.id

/-- Appended and not acknowledged yet. -/
def Unacked (s : StreamLog F) (id : Nat) : Prop := s.Unread id ∨ s.IsPending id

instance (s : StreamLog F) (id : Nat) : Decidable (s.Unread id) :=
  inferInstanceAs (Decidable (_ ∧ _))

instance (s : StreamLog F) (id : Nat) : Decidable (s.IsPending id) :=
  inferInstanceAs (Decidable (id ∈ s.pending.map PendingEntry.id))

instance (s : StreamLog F) (id : Nat) : Decidable (s.Unacked id) :=
  inferInstanceAs (Decidable (_ ∨ _))

theorem IsPending.lt {s : StreamLog F} {id : Nat} (h : s.IsPending id) :
    id < s.lastDelivered := by
  obtain ⟨p, hp, rfl⟩ := List.mem_map.mp h
  exact s.pending_lt p hp

theorem Stale.isPending {s : StreamLog F} {minIdle now : ℚ} {id : Nat}
    (h : s.Stale minIdle now id) : s.IsPending id := by
  obtain ⟨p, hp, rfl, _⟩ := h
  exact List.mem_map_of_mem hp

@[simp] theorem xadd_entries (s : StreamLog F) (f : F) : (s.xadd f).entries = s.entries ++ [f] :=
  rfl

theorem entries_foldl_xadd (fs : List F) (s : StreamLog F) :
    (fs.foldl xadd s).entries = s.entries ++ fs := by
  induction fs generalizing s with
  | nil => simp
  | cons f rest ih => simp [ih, xadd_entries]

@[simp] theorem xack_entries (s : StreamLog F) (id : Nat) : (s.xack id).entries = s.entries := rfl

@[simp] theorem xclaim_entries (s : StreamLog F) (consumer : Nat) (now : ℚ) (ids : List Nat) :
    (s.xclaim consumer now ids).entries = s.entries := rfl

@[simp] theorem xreadgroup_entries (s : StreamLog F) (consumer : Nat) (now : ℚ) :
    (s.xreadgroup consumer now).entries = s.entries := by
  unfold xreadgroup
  split <;> rfl

@[simp] theorem isPending_xadd (s : StreamLog F) (f : F) (id : Nat) :
    (s.xadd f).IsPending id ↔ s.IsPending id := Iff.rfl

@[simp] theorem isPending_xack (s : StreamLog F) (id other : Nat) :
    (s.xack id).IsPending other ↔ s.IsPending other ∧ other ≠ id := by
  simp only [IsPending, xack, List.mem_map, List.mem_filter, decide_eq_true_eq]
  constructor
  · rintro ⟨p, ⟨hp, ne⟩, rfl⟩
    exact ⟨⟨p, hp, rfl⟩, by simpa using ne⟩
  · rintro ⟨⟨p, hp, rfl⟩, ne⟩
    exact ⟨p, ⟨hp, by simpa using ne⟩, rfl⟩

@[simp] theorem isPending_xclaim (s : StreamLog F) (consumer : Nat) (now : ℚ) (ids : List Nat)
    (id : Nat) : (s.xclaim consumer now ids).IsPending id ↔ s.IsPending id := by
  have same : PendingEntry.id ∘ PendingEntry.claimBy consumer now ids = PendingEntry.id :=
    funext (PendingEntry.claimBy_id consumer now ids)
  simp only [IsPending, xclaim, List.map_map, same]

theorem pending_xreadgroup {s : StreamLog F} (h : s.lastDelivered < s.entries.length)
    (consumer : Nat) (now : ℚ) :
    (s.xreadgroup consumer now).pending = s.pending ++ [⟨s.lastDelivered, consumer, now⟩] := by
  simp [xreadgroup, h]

theorem isPending_xreadgroup {s : StreamLog F} (h : s.lastDelivered < s.entries.length)
    (consumer : Nat) (now : ℚ) (id : Nat) :
    (s.xreadgroup consumer now).IsPending id ↔ s.IsPending id ∨ id = s.lastDelivered := by
  simp [IsPending, pending_xreadgroup h]

@[simp] theorem unacked_xclaim (s : StreamLog F) (consumer : Nat) (now : ℚ) (ids : List Nat)
    (id : Nat) : (s.xclaim consumer now ids).Unacked id ↔ s.Unacked id := by
  simp only [Unacked, isPending_xclaim]
  rfl

/-- Reading moves the entry from unread to pending; it stays unacknowledged. -/
theorem unacked_xreadgroup (s : StreamLog F) (consumer : Nat) (now : ℚ) (id : Nat) :
    (s.xreadgroup consumer now).Unacked id ↔ s.Unacked id := by
  by_cases h : s.lastDelivered < s.entries.length
  · have moved : (s.xreadgroup consumer now).lastDelivered = s.lastDelivered + 1 := by
      simp [xreadgroup, h]
    simp only [Unacked, Unread, isPending_xreadgroup h, xreadgroup_entries, moved]
    constructor
    · rintro (⟨low, high⟩ | pending | first)
      · exact Or.inl ⟨by omega, high⟩
      · exact Or.inr pending
      · exact Or.inl ⟨by omega, by omega⟩
    · rintro (⟨low, high⟩ | pending)
      · by_cases first : id = s.lastDelivered
        · exact Or.inr (Or.inr first)
        · exact Or.inl ⟨by omega, high⟩
      · exact Or.inr (Or.inl pending)
  · simp [xreadgroup, h]

/-- Read to the end, with nothing pending. -/
theorem not_unacked_of_drained {s : StreamLog F} {id : Nat} (noPending : s.pending = [])
    (allRead : s.lastDelivered = s.entries.length) : ¬ s.Unacked id := by
  rintro (unread | pending)
  · exact Nat.not_lt_of_le (allRead ▸ unread.1) unread.2
  · unfold IsPending at pending
    rw [noPending] at pending
    exact List.not_mem_nil pending

theorem not_unacked_xack {s : StreamLog F} {id : Nat} (pending : s.IsPending id) :
    ¬ (s.xack id).Unacked id := by
  rintro (unread | still)
  · exact Nat.not_lt_of_le unread.1 pending.lt
  · exact ((isPending_xack s id id).mp still).2 rfl

end StreamLog
