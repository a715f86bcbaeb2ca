import Relay.Delivery.RetryScheduler
import Relay.Lib.Transition

/-!
# Due retries are not passed over

A full batch that leaves a due member behind takes members in its place that
were due no later. What is scheduled meanwhile is due later than what is due
already. So each poll brings a waiting member a whole batch closer, and a
scheduler pauses only when its poll has left nothing due.
-/

namespace Relay

open RetryQueue

namespace RetryQueue.Queues.Moves

variable {q q' : Queues} {now : ℚ} {limit : Nat} {moved : List (Member × ℚ)}

theorem nodup (moves : Moves q now limit q' moved) : moved.Nodup :=
  List.Nodup.of_map _ moves.distinct

theorem gone (moves : Moves q now limit q' moved) {e : Member × ℚ} (taken : e ∈ moved) :
    ¬ q'.retries.Mem e.1 := by
  intro still
  obtain ⟨score, left⟩ := ZSet.mem_iff.mp still
  rw [moves.others, List.mem_filter] at left
  exact of_decide_eq_true left.2 (List.mem_map.mpr ⟨e, taken, rfl⟩)

/-- A batch that is not full takes all that is due. -/
theorem takes_all (moves : Moves q now limit q' moved) (part : moved.length < limit)
    {e : Member × ℚ} (due : e ∈ q.retries.upTo now) : e ∈ moved := by
  have inside : moved ⊆ q.retries.upTo now := fun e taken =>
    List.mem_filter.mpr ⟨(moves.due e taken).1, decide_eq_true (moves.due e taken).2⟩
  have enough : (q.retries.upTo now).length ≤ moved.length := by
    have count := moves.count
    omega
  have same := (List.subperm_of_subset moves.nodup inside).perm_of_length_le enough
  exact same.mem_iff.mpr due

theorem none_left (moves : Moves q now limit q' moved) (part : moved.length < limit) :
    q'.retries.upTo now = [] := by
  refine List.eq_nil_iff_forall_not_mem.mpr (fun e listed => ?_)
  obtain ⟨there, due⟩ := List.mem_filter.mp listed
  have before : e ∈ q.retries.entries := by
    rw [moves.others] at there
    exact List.mem_of_mem_filter there
  exact moves.gone (moves.takes_all part (List.mem_filter.mpr ⟨before, due⟩))
    (ZSet.mem_iff.mpr ⟨e.2, there⟩)

/-- A batch that leaves a due member takes as many members as it may, none of
which was due later. -/
theorem passes (moves : Moves q now limit q' moved) {m : Member} {score : ℚ}
    (entry : (m, score) ∈ q.retries.entries) (due : score ≤ now) (still : q'.retries.Mem m) :
    (q'.retries.upTo score).length + limit ≤ (q.retries.upTo score).length := by
  have dueNow : (m, score) ∈ q.retries.upTo now :=
    List.mem_filter.mpr ⟨entry, decide_eq_true due⟩
  have left : (m, score) ∉ moved := fun taken => moves.gone taken still
  have full : limit ≤ moved.length := by
    by_contra part
    exact left (moves.takes_all (Nat.lt_of_not_le part) dueNow)
  have taken : moved ⊆
      (q.retries.upTo score).filter (fun e => !decide (e.1 ∉ moved.map Prod.fst)) := by
    intro e inBatch
    refine List.mem_filter.mpr ⟨List.mem_filter.mpr ⟨(moves.due e inBatch).1, ?_⟩, ?_⟩
    · exact decide_eq_true (moves.lowest e inBatch _ dueNow left)
    · have named : e.1 ∈ moved.map Prod.fst := List.mem_map.mpr ⟨e, inBatch, rfl⟩
      rw [decide_eq_false (not_not.mpr named)]
      rfl
  have rest : q'.retries.upTo score =
      (q.retries.upTo score).filter (fun e => decide (e.1 ∉ moved.map Prod.fst)) := by
    rw [ZSet.upTo, ZSet.upTo, moves.others, List.filter_filter, List.filter_filter]
    exact List.filter_congr (fun e _ => Bool.and_comm _ _)
  have split := List.length_eq_length_filter_add (l := q.retries.upTo score)
    (fun e => decide (e.1 ∉ moved.map Prod.fst))
  have fits := (List.subperm_of_subset moves.nodup taken).length_le
  rw [rest]
  omega

end RetryQueue.Queues.Moves

namespace RetryScheduler

open Transition

variable {x y : System} {l : Label} {m : Member} {score : ℚ}

/-- No call touches the member, and what is scheduled is due later. -/
def Spares (m : Member) (score : ℚ) (_ : System) (l : Label) : Prop :=
  ∀ m' dueAt, l = .scheduleRetry m' dueAt → m' ≠ m ∧ score < dueAt

namespace System

/-- The executed scripts that found the score due. -/
def pollsAfter (x : System) (score : ℚ) : Nat := x.polls.countP (fun now => score ≤ now)

/-- What one step may do to the retry set: leave it, take members out, add one, or move a batch. -/
inductive Changes (x y : System) : Label → Prop
  | kept {l : Label} (queues : y.queues = x.queues) (polls : y.polls = x.polls) : Changes x y l
  | schedule {m : Member} {dueAt : ℚ} (queues : y.queues = x.queues.scheduleRetry m dueAt)
      (polls : y.polls = x.polls) : Changes x y (.scheduleRetry m dueAt)
  | remove {m : Member} (queues : y.queues = x.queues.removeFromRetryQueue m)
      (polls : y.polls = x.polls) : Changes x y (.removeFromRetryQueue m)
  | move {l : Label} {now : ℚ} (queues : y.queues = x.queues.moveDueToStreams now batchLimit)
      (polls : y.polls = now :: x.polls) : Changes x y l

theorem step_changes (next : System.step l x = some y) : Changes x y l := by
  cases l with
  | tick time =>
    simp only [System.step] at next
    split at next <;> cases next
    exact .kept rfl rfl
  | start i =>
    simp only [System.step] at next
    split at next <;> cases next
    exact .kept rfl rfl
  | stop i =>
    obtain ⟨c, _, rfl⟩ := Option.map_eq_some_iff.mp next
    exact .kept rfl rfl
  | scheduleRetry m dueAt =>
    cases next
    exact .schedule rfl rfl
  | removeFromRetryQueue m =>
    cases next
    exact .remove rfl rfl
  | run i e =>
    obtain ⟨c, _, next⟩ := Option.bind_eq_some_iff.mp next
    unfold stepScheduler at next
    split at next <;> cases next
    case h_1 =>
      unfold poll
      split <;> first
        | exact .move rfl rfl
        | exact .kept rfl rfl
    all_goals exact .kept rfl rfl

/-- While the member waits, each script that finds it due brings it a batch closer. -/
def Approaches (m : Member) (score : ℚ) (ahead : Nat) (x : System) : Prop :=
  x.queues.retries.Mem m → (m, score) ∈ x.queues.retries.entries ∧
    (x.queues.retries.upTo score).length + batchLimit * x.pollsAfter score ≤ ahead

variable (score) in
theorem upTo_shorter {q q' : ZSet Member} (fewer : q'.entries.Sublist q.entries) :
    (q'.upTo score).length ≤ (q.upTo score).length := (fewer.filter _).length_le

/-- A member that is left waits with the score that it had. -/
theorem Approaches.waited {ahead : Nat} (old : x.Approaches m score ahead)
    (fewer : y.queues.retries.entries.Sublist x.queues.retries.entries)
    (waits : y.queues.retries.Mem m) :
    (m, score) ∈ y.queues.retries.entries ∧ (m, score) ∈ x.queues.retries.entries ∧
      (x.queues.retries.upTo score).length + batchLimit * x.pollsAfter score ≤ ahead := by
  obtain ⟨later, listed⟩ := ZSet.mem_iff.mp waits
  have before := fewer.subset listed
  obtain ⟨entry, closer⟩ := old (ZSet.mem_iff.mpr ⟨later, before⟩)
  have same : (m, later) = (m, score) :=
    List.inj_on_of_nodup_map x.queues.retries.nodup before entry rfl
  exact ⟨same ▸ listed, entry, closer⟩

theorem Approaches.fewer {ahead : Nat} (old : x.Approaches m score ahead)
    (fewer : y.queues.retries.entries.Sublist x.queues.retries.entries)
    (polls : y.pollsAfter score = x.pollsAfter score) : y.Approaches m score ahead := by
  intro waits
  obtain ⟨listed, _, closer⟩ := old.waited fewer waits
  have shorter := upTo_shorter score fewer
  refine ⟨listed, ?_⟩
  rw [polls]
  omega

theorem Approaches.step {ahead : Nat} (old : x.Approaches m score ahead)
    (spares : Spares m score x l) (next : System.step l x = some y) :
    y.Approaches m score ahead := by
  cases step_changes next with
  | kept queues polls => exact old.fewer (by rw [queues]) (by rw [pollsAfter, pollsAfter, polls])
  | @remove m' queues polls =>
    refine old.fewer ?_ (by rw [pollsAfter, pollsAfter, polls])
    rw [queues]
    exact List.filter_sublist
  | @schedule m' dueAt queues polls =>
    obtain ⟨other, later⟩ := spares m' dueAt rfl
    intro waits
    rw [queues] at waits ⊢
    obtain ⟨entry, closer⟩ := old ((ZSet.mem_zadd.mp waits).resolve_right (Ne.symm other))
    refine ⟨ZSet.mem_entries_zadd.mpr (Or.inl ⟨entry, Ne.symm other⟩), ?_⟩
    have shorter : ((x.queues.retries.zadd m' dueAt).upTo score).length ≤
        (x.queues.retries.upTo score).length := by
      have late : ¬ dueAt ≤ score := not_le.mpr later
      simp only [ZSet.upTo, ZSet.zadd, List.filter_append, List.filter_cons, late, decide_false,
        List.filter_nil, Bool.false_eq_true, if_false, List.append_nil]
      exact (List.filter_sublist.filter _).length_le
    have same : y.pollsAfter score = x.pollsAfter score := by rw [pollsAfter, pollsAfter, polls]
    have goal : ((x.queues.retries.zadd m' dueAt).upTo score).length +
        batchLimit * y.pollsAfter score ≤ ahead := by
      rw [same]
      omega
    exact goal
  | @move _ now queues polls =>
    have moves := Queues.moves x.queues now batchLimit
    have fewer : y.queues.retries.entries.Sublist x.queues.retries.entries := by
      rw [queues, moves.others]
      exact List.filter_sublist
    by_cases due : score ≤ now
    · intro waits
      obtain ⟨listed, entry, closer⟩ := old.waited fewer waits
      have passed := moves.passes entry due (queues ▸ waits)
      have one : y.pollsAfter score = x.pollsAfter score + 1 := by
        rw [pollsAfter, polls, List.countP_cons_of_pos (by simpa using due)]
        rfl
      rw [← queues] at passed
      refine ⟨listed, ?_⟩
      rw [one, Nat.mul_add, Nat.mul_one]
      omega
    · refine old.fewer fewer ?_
      rw [pollsAfter, polls, List.countP_cons_of_neg (by simpa using due)]
      rfl

/-- As long as a due member waits, the scripts that have found it due since are
fewer than the batches that the members due no later make up. -/
theorem no_starvation (entry : (m, score) ∈ x.queues.retries.entries)
    (run : Run System.step (Spares m score) x y) (waits : y.queues.retries.Mem m) :
    batchLimit * y.pollsAfter score <
      (x.queues.retries.upTo score).length + batchLimit * x.pollsAfter score := by
  have start : x.Approaches m score
      ((x.queues.retries.upTo score).length + batchLimit * x.pollsAfter score) :=
    fun _ => ⟨entry, Nat.le_refl _⟩
  obtain ⟨still, closer⟩ := run.invariant
    (I := Approaches m score
      ((x.queues.retries.upTo score).length + batchLimit * x.pollsAfter score))
    start (fun old spares next => old.step spares next) waits
  have self : (m, score) ∈ y.queues.retries.upTo score :=
    List.mem_filter.mpr ⟨still, decide_eq_true (le_refl score)⟩
  have positive := List.length_pos_of_mem self
  omega

/-- A burst of one more than a batch, all due at once. -/
def burst : Queues :=
  (List.range 101).foldl
    (fun q i => q.scheduleRetry ⟨BitVec.ofNat 128 i, 0, 0, 0⟩ 0)
    ⟨ZSet.empty, fun _ => StreamLog.empty⟩

def unscheduled (_ : System) : Label → Bool
  | .scheduleRetry _ _ => false
  | _ => true

theorem unscheduled_sound (x : System) (l : Label) (checked : unscheduled x l = true) :
    Spares m score x l := by
  rintro m' dueAt rfl
  cases checked

/-- One poll leaves the last member. -/
theorem no_starvation_burst : ∃ y,
    Run System.step (Spares ⟨100, 0, 0, 0⟩ 0) (initial burst) y ∧
      y.queues.retries.Mem ⟨100, 0, 0, 0⟩ ∧ y.pollsAfter 0 = 1 ∧
      batchLimit * y.pollsAfter 0 < ((initial burst).queues.retries.upTo 0).length +
        batchLimit * (initial burst).pollsAfter 0 := by
  have entry : ((⟨100, 0, 0, 0⟩, 0) : Member × ℚ) ∈
      (initial burst).queues.retries.entries := by
    decide +kernel
  have evaluates : (exec System.step unscheduled [.start 0, .run 0 .answers]
      (initial burst)).elim false (fun y => decide (y.queues.retries.Mem ⟨100, 0, 0, 0⟩ ∧
        y.pollsAfter 0 = 1)) = true := by
    decide +kernel
  obtain ⟨y, executed, passes⟩ := reached evaluates
  obtain ⟨waits, once⟩ := of_decide_eq_true passes
  have run : Run System.step (Spares ⟨100, 0, 0, 0⟩ 0) (initial burst) y :=
    run_of_exec unscheduled_sound executed
  exact ⟨y, run, waits, once, no_starvation entry run waits⟩

end System

end RetryScheduler

end Relay
