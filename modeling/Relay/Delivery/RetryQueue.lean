import Relay.Delivery.Enqueue
import Relay.Lib.StreamLog
import Relay.Lib.ZSet
import Mathlib.Logic.Function.Basic

/-!
# The sorted set of deliveries waiting for their next attempt

A member packs everything the scheduler needs to rebuild the stream entry, the
shard included. Moving due members is one script: the ZREM and the XADD of a
member are one atomic step.
-/

namespace Relay.RetryQueue

open Enqueue

/-- The four parts that `encode_member` joins. -/
structure Member where
  deliveryId : Uuid
  eventId : Uuid
  endpointId : Uuid
  shard : Nat
  deriving DecidableEq

def encodeMember (streamShards : Nat) (deliveryId eventId endpointId : Uuid) : Member :=
  ⟨deliveryId, eventId, endpointId, shardFor streamShards endpointId⟩

/-- The byte order of the members' texts. The text of a UUID is lower-case hex
of fixed length, so its byte order is the order of its value; the shard is
decided by the endpoint. -/
def memberLe (a b : Member) : Bool :=
  decide (a.deliveryId < b.deliveryId) || (decide (a.deliveryId = b.deliveryId) &&
    (decide (a.eventId < b.eventId) || (decide (a.eventId = b.eventId) &&
      decide (a.endpointId ≤ b.endpointId))))

def Member.fields (m : Member) : Fields := ⟨m.deliveryId, m.eventId, m.endpointId⟩

/-- The retry set and the shard streams, as the script sees them. -/
structure Queues where
  retries : ZSet Member
  streams : Nat → StreamLog Fields

namespace Queues

def xadd (q : Queues) (shard : Nat) (f : Fields) : Queues :=
  { q with streams := Function.update q.streams shard ((q.streams shard).xadd f) }

/-- One turn of the loop in `MOVE_DUE_LUA`. -/
def moveMember (q : Queues) (m : Member) : Queues :=
  if q.retries.Mem m then
    { q with retries := q.retries.zrem m }.xadd m.shard m.fields
  else q

/-- `move_due_to_streams(limit, now)`. -/
def moveDueToStreams (q : Queues) (now : ℚ) (limit : Nat) : Queues :=
  (q.retries.rangeUpTo memberLe now limit).foldl moveMember q

/-- `schedule_retry` with its computed due time. -/
def scheduleRetry (q : Queues) (m : Member) (dueAt : ℚ) : Queues :=
  { q with retries := q.retries.zadd m dueAt }

def removeFromRetryQueue (q : Queues) (m : Member) : Queues :=
  { q with retries := q.retries.zrem m }

/-- What every single move preserves, the whole script preserves. -/
theorem moveDueToStreams_induction {P : Queues → Prop} {q : Queues} {now : ℚ} {limit : Nat}
    (start : P q)
    (one : ∀ q' m, P q' → (∃ s, (m, s) ∈ q.retries.entries ∧ s ≤ now) →
      q'.retries.Mem m →
      P ({ q' with retries := q'.retries.zrem m }.xadd m.shard m.fields)) :
    P (q.moveDueToStreams now limit) := by
  unfold moveDueToStreams
  have listed : ∀ m ∈ q.retries.rangeUpTo memberLe now limit,
      ∃ s, (m, s) ∈ q.retries.entries ∧ s ≤ now := fun m h => ZSet.mem_rangeUpTo h
  generalize q.retries.rangeUpTo memberLe now limit = due at listed
  suffices ∀ q', P q' → P (due.foldl moveMember q') from this q start
  induction due with
  | nil => exact fun q' h => h
  | cons m rest ih =>
    intro q' h
    apply ih (fun a ha => listed a (List.mem_cons_of_mem m ha))
    unfold moveMember
    split
    · rename_i present
      exact one q' m h (listed m List.mem_cons_self) present
    · exact h

theorem mem_moveDueToStreams {q : Queues} {now : ℚ} {limit : Nat} {e : Member × ℚ}
    (listed : e ∈ (q.moveDueToStreams now limit).retries.entries) : e ∈ q.retries.entries := by
  revert listed
  apply moveDueToStreams_induction (P := fun q' => e ∈ q'.retries.entries →
    e ∈ q.retries.entries)
  · exact id
  · exact fun q' m kept _ _ listed => kept (ZSet.mem_entries_zrem.mp listed).1

theorem xadd_streams (q : Queues) (shard n : Nat) (f : Fields) :
    (q.xadd shard f).streams n = if n = shard then (q.streams n).xadd f else q.streams n := by
  by_cases same : n = shard
  · subst same
    simp [xadd]
  · simp [xadd, same]

/-- A member that the script removes becomes a new entry of its shard. -/
theorem moveDueToStreams_moved {q : Queues} {now : ℚ} {limit : Nat} {m : Member}
    (present : q.retries.Mem m) : (q.moveDueToStreams now limit).retries.Mem m ∨
      ∃ i, (q.streams m.shard).entries.length ≤ i ∧
        ((q.moveDueToStreams now limit).streams m.shard).entries[i]? = some m.fields := by
  suffices (q.streams m.shard).entries.length ≤
        ((q.moveDueToStreams now limit).streams m.shard).entries.length ∧
      ((q.moveDueToStreams now limit).retries.Mem m ∨
        ∃ i, (q.streams m.shard).entries.length ≤ i ∧
          ((q.moveDueToStreams now limit).streams m.shard).entries[i]? = some m.fields) from this.2
  apply moveDueToStreams_induction (P := fun q' =>
    (q.streams m.shard).entries.length ≤ (q'.streams m.shard).entries.length ∧
      (q'.retries.Mem m ∨ ∃ i, (q.streams m.shard).entries.length ≤ i ∧
        (q'.streams m.shard).entries[i]? = some m.fields))
  · exact ⟨Nat.le_refl _, Or.inl present⟩
  · rintro q' a ⟨longer, carried⟩ _ _
    have grown : ∃ more, (({ q' with retries := q'.retries.zrem a }.xadd a.shard a.fields).streams
        m.shard).entries = (q'.streams m.shard).entries ++ more := by
      rw [xadd_streams]
      split
      · exact ⟨[a.fields], rfl⟩
      · exact ⟨[], (List.append_nil _).symm⟩
    obtain ⟨more, entries⟩ := grown
    refine ⟨by simp [entries]; omega, ?_⟩
    rcases carried with still | ⟨i, new, entry⟩
    · by_cases same : m = a
      · subst same
        refine Or.inr ⟨(q'.streams m.shard).entries.length, longer, ?_⟩
        simp [xadd_streams]
      · exact Or.inl (ZSet.mem_zrem.mpr ⟨still, same⟩)
    · refine Or.inr ⟨i, new, ?_⟩
      rw [entries, List.getElem?_append_left (List.getElem?_eq_some_iff.mp entry).1]
      exact entry

theorem moveMember_of_mem {q : Queues} {m : Member} (present : q.retries.Mem m) :
    q.moveMember m = { q with retries := q.retries.zrem m }.xadd m.shard m.fields :=
  if_pos present

/-- The loop of the script over distinct members that are all present. -/
theorem foldl_moveMember {ms : List Member} {q : Queues} (distinct : ms.Nodup)
    (present : ∀ m ∈ ms, q.retries.Mem m) :
    (ms.foldl moveMember q).retries.entries = q.retries.entries.filter (fun e => e.1 ∉ ms) ∧
      ∀ n, (ms.foldl moveMember q).streams n =
        ((ms.filter (fun m => m.shard = n)).map Member.fields).foldl StreamLog.xadd
          (q.streams n) := by
  induction ms generalizing q with
  | nil => simp
  | cons m rest ih =>
    obtain ⟨new, distinct⟩ := List.nodup_cons.mp distinct
    have first : q.retries.Mem m := present m List.mem_cons_self
    rw [List.foldl_cons, moveMember_of_mem first]
    have others : ∀ a ∈ rest, (({ q with retries := q.retries.zrem m } : Queues).xadd m.shard
        m.fields).retries.Mem a := by
      intro a listed
      have ne : a ≠ m := fun same => new (same ▸ listed)
      exact ZSet.mem_zrem.mpr ⟨present a (List.mem_cons_of_mem _ listed), ne⟩
    obtain ⟨entries, streams⟩ := ih distinct others
    refine ⟨?_, fun n => ?_⟩
    · rw [entries]
      change (q.retries.entries.filter _).filter _ = _
      rw [List.filter_filter]
      apply List.filter_congr
      intro e _
      simp [Bool.and_comm]
    · rw [streams, xadd_streams]
      by_cases same : n = m.shard
      · simp [same]
      · simp [same, Ne.symm same]

/-- One run of the script takes the entries `moved` and appends theirs. -/
structure Moves (q : Queues) (now : ℚ) (limit : Nat) (q' : Queues)
    (moved : List (Member × ℚ)) : Prop where
  count : moved.length = min limit (q.retries.upTo now).length
  distinct : (moved.map Prod.fst).Nodup
  due : ∀ e ∈ moved, e ∈ q.retries.entries ∧ e.2 ≤ now
  sorted : moved.Pairwise (fun e f => e.2 ≤ f.2)
  lowest : ∀ e ∈ moved, ∀ f ∈ q.retries.upTo now, f ∉ moved → e.2 ≤ f.2
  others : q'.retries.entries = q.retries.entries.filter (fun e => e.1 ∉ moved.map Prod.fst)
  streams : ∀ n, q'.streams n =
    (((moved.map Prod.fst).filter (fun m => m.shard = n)).map Member.fields).foldl StreamLog.xadd
      (q.streams n)

theorem moves (q : Queues) (now : ℚ) (limit : Nat) :
    Moves q now limit (q.moveDueToStreams now limit)
      (q.retries.lowestUpTo memberLe now limit) := by
  have distinct := q.retries.nodup_rangeUpTo memberLe now limit
  have present : ∀ m ∈ q.retries.rangeUpTo memberLe now limit, q.retries.Mem m := by
    intro m listed
    obtain ⟨s, entry, _⟩ := ZSet.mem_rangeUpTo listed
    exact ZSet.mem_iff.mpr ⟨s, entry⟩
  obtain ⟨others, streams⟩ := foldl_moveMember distinct present
  exact {
    count := q.retries.length_lowestUpTo memberLe now limit
    distinct := distinct
    due := fun _ => ZSet.mem_lowestUpTo
    sorted := q.retries.lowestUpTo_sorted memberLe now limit
    lowest := fun _ taken _ due left => ZSet.lowestUpTo_lowest taken due left
    others := others
    streams := streams }

end Queues

end Relay.RetryQueue
