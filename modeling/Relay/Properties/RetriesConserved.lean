import Relay.Delivery.RetryQueue

/-!
# The retry set neither loses nor duplicates

Any number of callers schedule, remove and move; each command and each script
is one step, so an interleaving is a list of calls. A ledger keeps what the
calls answered and the score that was last set for each member.
-/

namespace Relay.RetryQueue

open Enqueue

inductive Call where
  | scheduleRetry (deliveryId eventId endpointId : Uuid) (delaySeconds now : ℚ)
  | removeFromRetryQueue (deliveryId eventId endpointId : Uuid)
  | moveDueToStreams (limit : Nat) (now : ℚ)

/-- The queues with an account of the calls so far. -/
structure Ledger where
  queues : Queues
  /-- Calls of `schedule_retry` that found the member absent. -/
  inserted : Member → Nat
  /-- Calls of `remove_from_retry_queue` that returned true. -/
  removed : Member → Nat
  /-- The score last set for the member. -/
  dueAt : Member → Option ℚ

namespace Ledger

def start (streams : Nat → StreamLog Fields) : Ledger :=
  ⟨⟨ZSet.empty, streams⟩, fun _ => 0, fun _ => 0, fun _ => none⟩

def present (l : Ledger) (m : Member) : Nat := if l.queues.retries.Mem m then 1 else 0

/-- Stream entries for the member on its shard. -/
def entriesFor (l : Ledger) (m : Member) : Nat :=
  (l.queues.streams m.shard).entries.count m.fields

def schedule (l : Ledger) (m : Member) (dueAt : ℚ) : Ledger :=
  { l with
    queues := l.queues.scheduleRetry m dueAt
    inserted := Function.update l.inserted m (l.inserted m + (1 - l.present m))
    dueAt := Function.update l.dueAt m (some dueAt) }

def remove (l : Ledger) (m : Member) : Ledger :=
  { l with
    queues := l.queues.removeFromRetryQueue m
    removed := Function.update l.removed m (l.removed m + l.present m) }

def move (l : Ledger) (limit : Nat) (now : ℚ) : Ledger :=
  { l with queues := l.queues.moveDueToStreams now limit }

def call (streamShards : Nat) (l : Ledger) : Call → Ledger
  | .scheduleRetry deliveryId eventId endpointId delaySeconds now =>
    l.schedule (encodeMember streamShards deliveryId eventId endpointId) (now + delaySeconds)
  | .removeFromRetryQueue deliveryId eventId endpointId =>
    l.remove (encodeMember streamShards deliveryId eventId endpointId)
  | .moveDueToStreams limit now => l.move limit now

def after (streamShards : Nat) (calls : List Call) (l : Ledger) : Ledger :=
  calls.foldl (call streamShards) l

variable {streamShards : Nat} {l : Ledger}

theorem present_le (l : Ledger) (m : Member) : l.present m ≤ 1 := by
  unfold present
  split <;> omega

theorem present_schedule (m a : Member) (dueAt : ℚ) :
    (l.schedule m dueAt).present a = if a = m then 1 else l.present a := by
  have listed : (l.schedule m dueAt).queues.retries.Mem a ↔ l.queues.retries.Mem a ∨ a = m :=
    ZSet.mem_zadd
  unfold present
  rw [if_congr listed rfl rfl]
  by_cases mine : a = m <;> simp [mine]

theorem present_remove (m a : Member) :
    (l.remove m).present a = if a = m then 0 else l.present a := by
  have listed : (l.remove m).queues.retries.Mem a ↔ l.queues.retries.Mem a ∧ a ≠ m :=
    ZSet.mem_zrem
  unfold present
  rw [if_congr listed rfl rfl]
  by_cases mine : a = m <;> simp [mine]

/-- Among distinct members, the fields and the shard single one out. -/
theorem count_fields {ms : List Member} (distinct : ms.Nodup) (m : Member) :
    ((ms.filter (fun a => a.shard = m.shard)).map Member.fields).count m.fields =
      if m ∈ ms then 1 else 0 := by
  have same : ∀ a : Member, a.shard = m.shard → a.fields = m.fields → a = m := by
    intro a shard fields
    cases a
    cases m
    simp_all [Member.fields]
  induction ms with
  | nil => simp
  | cons a rest ih =>
    obtain ⟨new, distinct⟩ := List.nodup_cons.mp distinct
    have later := ih distinct
    by_cases mine : a = m
    · subst mine
      simp only [new, if_false] at later
      simp [later]
    · have elsewhere : m ∈ a :: rest ↔ m ∈ rest := by simp [Ne.symm mine]
      simp only [elsewhere]
      by_cases shard : a.shard = m.shard
      · have other : a.fields ≠ m.fields := fun fields => mine (same a shard fields)
        simp [shard, other, later]
      · simp [shard, later]

/-- One run of the script moves the member or leaves it where it is. -/
theorem entriesFor_move (limit : Nat) (now : ℚ) (m : Member) :
    (l.move limit now).entriesFor m + (l.move limit now).present m =
      l.entriesFor m + l.present m ∧
    (l.entriesFor m < (l.move limit now).entriesFor m →
      ∃ s, (m, s) ∈ l.queues.retries.entries ∧ s ≤ now) := by
  have moves := l.queues.moves now limit
  generalize l.queues.retries.lowestUpTo memberLe now limit = moved at moves
  have appended : (l.move limit now).entriesFor m =
      l.entriesFor m + if m ∈ moved.map Prod.fst then 1 else 0 := by
    change ((l.queues.moveDueToStreams now limit).streams m.shard).entries.count m.fields = _
    rw [moves.streams, StreamLog.entries_foldl_xadd, List.count_append, count_fields moves.distinct]
    rfl
  have remains : (l.move limit now).queues.retries.Mem m ↔
      l.queues.retries.Mem m ∧ m ∉ moved.map Prod.fst := by
    change m ∈ (l.queues.moveDueToStreams now limit).retries.entries.map Prod.fst ↔ _
    rw [moves.others]
    simp only [ZSet.Mem, List.mem_map, List.mem_filter, decide_eq_true_eq]
    constructor
    · rintro ⟨e, ⟨listed, left⟩, rfl⟩
      exact ⟨⟨e, listed, rfl⟩, left⟩
    · rintro ⟨⟨e, listed, rfl⟩, left⟩
      exact ⟨e, ⟨listed, left⟩, rfl⟩
  by_cases taken : m ∈ moved.map Prod.fst
  · obtain ⟨e, listed, rfl⟩ := List.mem_map.mp taken
    obtain ⟨entry, due⟩ := moves.due e listed
    have before : l.present e.1 = 1 := if_pos (List.mem_map_of_mem entry)
    have later : (l.move limit now).present e.1 = 0 := if_neg (fun h => (remains.mp h).2 taken)
    rw [appended, if_pos taken, before, later]
    exact ⟨rfl, fun _ => ⟨e.2, entry, due⟩⟩
  · have same : (l.move limit now).present m = l.present m := by
      unfold present
      rw [if_congr remains rfl rfl]
      simp [taken]
    rw [appended, if_neg taken, same]
    exact ⟨rfl, fun grown => absurd grown (Nat.lt_irrefl _)⟩

/-- Everything that was inserted is in the set, on a stream or removed, and
every score in the set is the one last set. -/
structure Balanced (streams : Nat → StreamLog Fields) (l : Ledger) : Prop where
  balance : ∀ m, l.entriesFor m + l.removed m + l.present m =
    (streams m.shard).entries.count m.fields + l.inserted m
  scores : ∀ m s, (m, s) ∈ l.queues.retries.entries → l.dueAt m = some s

theorem balanced_start (streams : Nat → StreamLog Fields) : Balanced streams (start streams) where
  balance := fun _ => rfl
  scores := fun _ _ listed => absurd listed List.not_mem_nil

section Step

variable {streams : Nat → StreamLog Fields}

theorem Balanced.schedule (balanced : Balanced streams l) (m : Member) (dueAt : ℚ) :
    Balanced streams (l.schedule m dueAt) where
  balance := by
    intro a
    have old := balanced.balance a
    have le := l.present_le a
    change l.entriesFor a + l.removed a + (l.schedule m dueAt).present a =
      _ + Function.update l.inserted m (l.inserted m + (1 - l.present m)) a
    rw [present_schedule]
    by_cases mine : a = m
    · subst mine
      rw [if_pos rfl, Function.update_self]
      omega
    · rw [if_neg mine, Function.update_of_ne mine]
      exact old
  scores := by
    intro a s listed
    change Function.update l.dueAt m (some dueAt) a = some s
    rcases ZSet.mem_entries_zadd.mp listed with ⟨entry, ne⟩ | new
    · rw [Function.update_of_ne ne]
      exact balanced.scores a s entry
    · cases new
      rw [Function.update_self]

theorem Balanced.remove (balanced : Balanced streams l) (m : Member) :
    Balanced streams (l.remove m) where
  balance := by
    intro a
    have old := balanced.balance a
    change l.entriesFor a + Function.update l.removed m (l.removed m + l.present m) a +
      (l.remove m).present a = _
    rw [present_remove]
    by_cases mine : a = m
    · subst mine
      rw [if_pos rfl, Function.update_self]
      change _ = _ + l.inserted a
      omega
    · rw [if_neg mine, Function.update_of_ne mine]
      exact old
  scores := fun a s listed => balanced.scores a s (ZSet.mem_entries_zrem.mp listed).1

theorem Balanced.move (balanced : Balanced streams l) (limit : Nat) (now : ℚ) :
    Balanced streams (l.move limit now) where
  balance := by
    intro a
    have old := balanced.balance a
    have moved := (@entriesFor_move l limit now a).1
    change _ + l.removed a + _ = _ + l.inserted a
    omega
  scores := fun a s listed => balanced.scores a s (Queues.mem_moveDueToStreams listed)

theorem Balanced.call (balanced : Balanced streams l) (c : Call) :
    Balanced streams (l.call streamShards c) := by
  cases c with
  | scheduleRetry => exact balanced.schedule _ _
  | removeFromRetryQueue => exact balanced.remove _
  | moveDueToStreams => exact balanced.move _ _

theorem Balanced.after (balanced : Balanced streams l) (calls : List Call) :
    Balanced streams (l.after streamShards calls) := by
  induction calls generalizing l with
  | nil => exact balanced
  | cons c rest ih => exact ih (balanced.call c)

end Step

/-- Only a move appends, and it appends what is due by its clock. -/
theorem Balanced.append_due {streams : Nat → StreamLog Fields} (balanced : Balanced streams l)
    {c : Call} {m : Member} (appends : l.entriesFor m < (l.call streamShards c).entriesFor m) :
    ∃ limit now s, c = .moveDueToStreams limit now ∧ l.dueAt m = some s ∧ s ≤ now := by
  cases c with
  | scheduleRetry => exact absurd appends (Nat.lt_irrefl _)
  | removeFromRetryQueue => exact absurd appends (Nat.lt_irrefl _)
  | moveDueToStreams limit now =>
    obtain ⟨s, entry, due⟩ := (entriesFor_move limit now m).2 appends
    exact ⟨limit, now, s, rfl, balanced.scores m s entry, due⟩

/-- After any calls: nothing is lost or duplicated; the next call appends only
what is due; a move takes the lowest scores and leaves the others alone. -/
theorem retries_conserved (streamShards : Nat) (streams : Nat → StreamLog Fields)
    (calls : List Call) :
    (∀ m, ((start streams).after streamShards calls).entriesFor m +
        ((start streams).after streamShards calls).removed m +
        ((start streams).after streamShards calls).present m =
      (streams m.shard).entries.count m.fields +
        ((start streams).after streamShards calls).inserted m) ∧
    (∀ c m, ((start streams).after streamShards calls).entriesFor m <
        (((start streams).after streamShards calls).call streamShards c).entriesFor m →
      ∃ limit now s, c = .moveDueToStreams limit now ∧
        ((start streams).after streamShards calls).dueAt m = some s ∧ s ≤ now) ∧
    ∀ limit now, ∃ moved,
      Queues.Moves ((start streams).after streamShards calls).queues now limit
      (((start streams).after streamShards calls).call streamShards
        (.moveDueToStreams limit now)).queues moved := by
  have balanced : Balanced streams ((start streams).after streamShards calls) :=
    (balanced_start streams).after calls
  exact ⟨balanced.balance, fun _ _ => balanced.append_due,
    fun limit now => ⟨_, Queues.moves _ now limit⟩⟩

end Ledger

end Relay.RetryQueue
