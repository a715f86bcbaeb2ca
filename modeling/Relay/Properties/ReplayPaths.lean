import Relay.Api.Alone
import Relay.Pipeline

/-!
# Do the two replay paths agree?

`replay` and the approval of a `replay_dlq` action, each run on its own from the
same store. Both reset the rows and the breaker and append the same entries; the
approval neither removes leftover retries nor pushes onto the ordered list.
-/

namespace Relay.Api

open Enqueue RetryQueue Transition

/-- What the claim of agreement compares: rows, streams, lists, retries, breakers. -/
structure Agree (s s' : Store) : Prop where
  deliveries : s.db.deliveries = s'.db.deliveries
  streams : s.queues.streams = s'.queues.streams
  ordered : s.ordered = s'.ordered
  retries : s.queues.retries = s'.queues.retries
  breakers : s.breakers = s'.breakers

/-! Straight sequences of commands -/

section Commands

variable (streamShards : Nat) (source : Source)

def Command.pushes (endpointId : Uuid) : Command → Option Uuid
  | .rpush e d => if e = endpointId then some d else none
  | _ => none

def Command.removes : Command → Option Member
  | .zrem m => some m
  | _ => none

def appendTo (streams : Nat → StreamLog Fields) (f : Fields) : Nat → StreamLog Fields :=
  Function.update streams (shardFor streamShards f.endpointId)
    ((streams (shardFor streamShards f.endpointId)).xadd f)

theorem streams_execAll (s : Store) (commands : List Command) :
    (execAll streamShards source s commands).queues.streams =
      (commands.filterMap Command.appends).foldl (appendTo streamShards) s.queues.streams := by
  unfold execAll
  induction commands generalizing s with
  | nil => rfl
  | cons c rest ih =>
    rw [List.foldl_cons, ih]
    cases c <;> rfl

theorem ordered_execAll (s : Store) (commands : List Command) (endpointId : Uuid) :
    (execAll streamShards source s commands).ordered endpointId =
      s.ordered endpointId ++ commands.filterMap (Command.pushes endpointId) := by
  unfold execAll
  induction commands generalizing s with
  | nil => exact (List.append_nil _).symm
  | cons c rest ih =>
    rw [List.foldl_cons, ih]
    cases c with
    | rpush e d =>
      by_cases mine : e = endpointId
      · subst mine
        simp [Command.exec, Store.enqueueOrdered, Command.pushes]
      · simp [Command.exec, Store.enqueueOrdered, Command.pushes, mine, Ne.symm mine]
    | zrem m => rfl
    | xadd f => rfl

theorem mem_retries_execAll (s : Store) (commands : List Command) (m : Member) :
    (execAll streamShards source s commands).queues.retries.Mem m ↔
      s.queues.retries.Mem m ∧ m ∉ commands.filterMap Command.removes := by
  unfold execAll
  induction commands generalizing s with
  | nil => simp
  | cons c rest ih =>
    rw [List.foldl_cons, ih]
    cases c with
    | zrem a =>
      change ((s.queues.retries.zrem a).Mem m ∧ _) ↔ _
      simp [Command.removes, and_assoc, eq_comm]
    | rpush e d => rfl
    | xadd f => rfl

theorem retries_execAll {s : Store} {commands : List Command}
    (absent : ∀ m ∈ commands.filterMap Command.removes, ¬ s.queues.retries.Mem m) :
    (execAll streamShards source s commands).queues.retries = s.queues.retries := by
  unfold execAll
  induction commands generalizing s with
  | nil => rfl
  | cons c rest ih =>
    rw [List.foldl_cons]
    have same : (c.exec streamShards source s).queues.retries = s.queues.retries := by
      cases c with
      | zrem m => exact ZSet.zrem_of_not_mem (absent m List.mem_cons_self)
      | rpush e d => rfl
      | xadd f => rfl
    rw [ih, same]
    intro m listed
    rw [same]
    refine absent m ?_
    cases c with
    | zrem a => exact List.mem_cons_of_mem _ listed
    | rpush e d => exact listed
    | xadd f => exact listed

theorem appends_replay (ordering : Ordering) (rows : List Delivery) :
    (Replay.commands streamShards ordering rows).filterMap Command.appends =
      (Approve.commands rows).filterMap Command.appends := by
  unfold Replay.commands Approve.commands
  induction rows with
  | nil => rfl
  | cons d rest ih =>
    rw [List.flatMap_cons, List.filterMap_append, ih]
    cases ordering <;> rfl

theorem pushes_approve (rows : List Delivery) (endpointId : Uuid) :
    (Approve.commands rows).filterMap (Command.pushes endpointId) = [] := by
  unfold Approve.commands
  induction rows with
  | nil => rfl
  | cons d rest ih => exact ih

theorem pushes_replay (rows : List Delivery) (endpointId : Uuid)
    (here : ∀ d ∈ rows, d.endpointId = endpointId) :
    (Replay.commands streamShards .ordered rows).filterMap (Command.pushes endpointId) =
      rows.map Delivery.id := by
  unfold Replay.commands
  induction rows with
  | nil => rfl
  | cons d rest ih =>
    rw [List.flatMap_cons, List.filterMap_append, ih (fun a h => here a (List.mem_cons_of_mem _ h))]
    simp [Replay.commandsOf, Command.enqueueInOrder, Command.enqueue, Command.pushes,
      here d List.mem_cons_self, List.filterMap_cons]

theorem pushes_unordered (rows : List Delivery) (endpointId : Uuid) :
    (Replay.commands streamShards .unordered rows).filterMap (Command.pushes endpointId) = [] := by
  unfold Replay.commands
  induction rows with
  | nil => rfl
  | cons d rest ih => rw [List.flatMap_cons, List.filterMap_append, ih]; rfl

theorem removes_replay (ordering : Ordering) (rows : List Delivery) :
    (Replay.commands streamShards ordering rows).filterMap Command.removes =
      rows.map (Replay.memberOf streamShards) := by
  unfold Replay.commands
  induction rows with
  | nil => rfl
  | cons d rest ih =>
    rw [List.flatMap_cons, List.filterMap_append, ih]
    cases ordering <;> rfl

theorem removes_approve (rows : List Delivery) :
    (Approve.commands rows).filterMap Command.removes = [] := by
  unfold Approve.commands
  induction rows with
  | nil => rfl
  | cons d rest ih => exact ih

end Commands

/-! The two requests on their own -/

theorem Replay.ends_result (streamShards : Nat) {s : Store} {e : Endpoint}
    (endpoint : s.db.endpoint e.id = some e) :
    Ends (Replay.alone streamShards) (s, Replay.start e.tenantId ⟨e.id, none⟩)
      (Replay.result streamShards s e,
        ⟨e.tenantId, ⟨e.id, none⟩, .done (.ok ((s.db.dead e.id).map Delivery.id))⟩) := by
  have ends := Replay.ends_served streamShards s e.tenantId ⟨e.id, none⟩
    (fun _ => Option.isSome_iff_exists.mpr ⟨e, endpoint⟩)
  have result : Replay.served streamShards s e.tenantId ⟨e.id, none⟩ =
      (Replay.result streamShards s e, .ok ((s.db.dead e.id).map Delivery.id)) := by
    simp only [Replay.served, if_pos (owned endpoint), endpoint]
    rfl
  rw [result] at ends
  exact ends

theorem Approve.ends_result (streamShards : Nat) (clock : ℚ) {s : Store} {e : Endpoint}
    {a : AgentAction} (endpoint : s.db.endpoint e.id = some e)
    (action : s.db.action a.id = some a) (mine : a.endpointId = e.id)
    (replays : a.action = .replayDlq) (pending : a.status = .pending) :
    Ends (Approve.alone streamShards clock) (s, Approve.start e.tenantId a.id)
      (Approve.result streamShards clock s e a,
        ⟨e.tenantId, a.id, .done (.ok (approved a clock))⟩) := by
  have selects : ownedAction s.db e.tenantId a.id = some a := by
    have mine : a.endpointId ∈ s.db.tenantEndpointIds e.tenantId := mine ▸ owned endpoint
    simp [ownedAction, action, Option.filter, mine]
  have found : s.db.endpoint a.endpointId = some e := mine ▸ endpoint
  have ends := Approve.ends_served streamShards clock s e.tenantId a.id (fun a' h => by
    cases selects.symm.trans h
    exact Option.isSome_iff_exists.mpr ⟨e, found⟩)
  have result : Approve.served streamShards clock s e.tenantId a.id =
      (Approve.result streamShards clock s e a, .ok (approved a clock)) := by
    simp only [Approve.served, selects, if_pos pending, found, replays]
  rw [result] at ends
  exact ends

/-- The two paths agree exactly where no dead delivery of the endpoint has a
leftover retry, and the endpoint is not ordered or has no dead delivery. -/
theorem replay_paths_agree (streamShards : Nat) (clock : ℚ) {s : Store} {e : Endpoint}
    {a : AgentAction} (endpoint : s.db.endpoint e.id = some e)
    (action : s.db.action a.id = some a) (mine : a.endpointId = e.id)
    (replays : a.action = .replayDlq) (pending : a.status = .pending) :
    ∃ s₁ s₂ ids, Ends (Replay.alone streamShards)
      (s, Replay.start e.tenantId ⟨e.id, none⟩)
        (s₁, ⟨e.tenantId, ⟨e.id, none⟩, .done (.ok ids)⟩) ∧
      Ends (Approve.alone streamShards clock) (s, Approve.start e.tenantId a.id)
        (s₂, ⟨e.tenantId, a.id, .done (.ok (Approve.approved a clock))⟩) ∧
      (Agree s₁ s₂ ↔
        (∀ d ∈ s.db.dead e.id, ¬ s.queues.retries.Mem (Replay.memberOf streamShards d)) ∧
          (e.ordering = .ordered → s.db.dead e.id = [])) := by
  refine ⟨_, _, _, Replay.ends_result streamShards endpoint,
    Approve.ends_result streamShards clock endpoint action mine replays pending, ?_⟩
  have here : ∀ d ∈ s.db.dead e.id, d.endpointId = e.id := fun d listed => by
    simp only [Db.dead, List.mem_filter, decide_eq_true_eq] at listed
    exact listed.2.1
  unfold Replay.result Approve.result
  generalize s.db.dead e.id = rows at here
  obtain ⟨rowsAfter, log, committed⟩ := commitRequeued_frame s rows
  by_cases empty : rows = []
  · subst empty
    refine ⟨fun _ => ⟨fun d listed => absurd listed List.not_mem_nil, fun _ => rfl⟩,
      fun _ => ?_⟩
    exact ⟨rfl, rfl, rfl, rfl, rfl⟩
  · simp only [if_neg empty]
    constructor
    · intro agree
      refine ⟨fun d listed leftover => ?_, fun isOrdered => ?_⟩
      · -- the replay removes the member, the approval does not
        have kept := agree.retries
        have present : (execAll streamShards .approve
            ((Approve.decide (commitRequeued s rows) a clock).resetBreaker e.id)
            (Approve.commands rows)).queues.retries.Mem (Replay.memberOf streamShards d) := by
          rw [mem_retries_execAll, removes_approve]
          refine ⟨?_, List.not_mem_nil⟩
          change (commitRequeued s rows).queues.retries.Mem _
          rwa [committed]
        rw [← kept, mem_retries_execAll, removes_replay] at present
        exact present.2 (List.mem_map_of_mem listed)
      · -- the replay pushes the rows, the approval does not
        have same := congrFun agree.ordered e.id
        rw [ordered_execAll, ordered_execAll, pushes_approve, isOrdered,
          pushes_replay streamShards rows e.id here] at same
        exact List.map_eq_nil_iff.mp (List.append_cancel_left same)
    · rintro ⟨noLeftover, unordered⟩
      have ordering : e.ordering = .unordered := by
        cases kind : e.ordering with
        | unordered => rfl
        | ordered => exact absurd (unordered kind) empty
      obtain ⟨_, _, _, replayed⟩ := execAll_frame streamShards .replay
        ((commitRequeued s rows).resetBreaker e.id) (Replay.commands streamShards e.ordering rows)
      obtain ⟨_, _, _, approved⟩ := execAll_frame streamShards .approve
        ((Approve.decide (commitRequeued s rows) a clock).resetBreaker e.id) (Approve.commands rows)
      refine ⟨?_, ?_, ?_, ?_, ?_⟩
      · rw [replayed, approved]
        rfl
      · rw [streams_execAll, streams_execAll, appends_replay]
        rfl
      · funext endpointId
        rw [ordered_execAll, ordered_execAll, pushes_approve, ordering, pushes_unordered]
        rfl
      · rw [retries_execAll, retries_execAll]
        · rfl
        · rw [removes_approve]
          exact fun m listed => absurd listed List.not_mem_nil
        · rw [removes_replay]
          intro m listed
          obtain ⟨d, row, rfl⟩ := List.mem_map.mp listed
          change ¬ (commitRequeued s rows).queues.retries.Mem _
          rw [committed]
          exact noLeftover d row
      · rw [replayed, approved]
        rfl

/-! An unordered endpoint and an ordered one, each with a dead delivery -/

def deadRow : Delivery :=
  { id := 11, eventId := 10, endpointId := 1, status := .dead, attemptCount := 3 }

def replayAction : AgentAction :=
  { id := 5, diagnosisId := 6, endpointId := 1, action := .replayDlq }

/-- The event was attempted three times and is in the dead letter queue. -/
def deadLetter (ordering : Ordering) : Store :=
  { (World.initial (fun _ => 0)).store with
    db := {
      tenants := [{ id := 2 }]
      endpoints := [{ id := 1, tenantId := 2, ordering := ordering }]
      events := [⟨10, 2, "order.created", "payload", none⟩]
      deliveries := [deadRow]
      actions := [replayAction] } }

theorem replay_paths_agree_unordered : ∃ s₁ s₂ ids,
    Ends (Replay.alone 8) (deadLetter .unordered, Replay.start 2 ⟨1, none⟩)
        (s₁, ⟨2, ⟨1, none⟩, .done (.ok ids)⟩) ∧
      Ends (Approve.alone 8 0) (deadLetter .unordered, Approve.start 2 5)
        (s₂, ⟨2, 5, .done (.ok (Approve.approved replayAction 0))⟩) ∧ Agree s₁ s₂ := by
  obtain ⟨s₁, s₂, ids, first, second, iff⟩ :=
    replay_paths_agree 8 0 (s := deadLetter .unordered)
    (e := { id := 1, tenantId := 2, ordering := .unordered }) (a := replayAction)
    (by decide +kernel) (by decide +kernel) rfl rfl rfl
  exact ⟨s₁, s₂, ids, first, second,
    iff.mpr ⟨fun d _ => ZSet.not_mem_empty _, fun ordered => by cases ordered⟩⟩

def replayedLetter : Store × Replay :=
  drive (Replay.alone 8) 20 (deadLetter .ordered, Replay.start 2 ⟨1, none⟩)

def approvedLetter : Store × Approve :=
  drive (Approve.alone 8 0) 20 (deadLetter .ordered, Approve.start 2 5)

/-- For an ordered endpoint only the replay puts the delivery back on the list. -/
theorem replay_paths_differ : ∃ s₁ s₂ r₁ r₂,
    Ends (Replay.alone 8) (deadLetter .ordered, Replay.start 2 ⟨1, none⟩) (s₁, r₁) ∧
      Ends (Approve.alone 8 0) (deadLetter .ordered, Approve.start 2 5) (s₂, r₂) ∧
      ¬ Agree s₁ s₂ := by
  have stops : (Replay.alone 8 replayedLetter).isNone = true ∧
      (Approve.alone 8 0 approvedLetter).isNone = true := by decide +kernel
  have lists : replayedLetter.1.ordered 1 = [11] ∧ approvedLetter.1.ordered 1 = [] := by
    decide +kernel
  refine ⟨replayedLetter.1, approvedLetter.1, replayedLetter.2, approvedLetter.2,
    ⟨⟨20, rfl⟩, Option.isNone_iff_eq_none.mp stops.1⟩,
    ⟨⟨20, rfl⟩, Option.isNone_iff_eq_none.mp stops.2⟩, fun agree => ?_⟩
  have same := congrFun agree.ordered 1
  rw [lists.1, lists.2] at same
  cases same

end Relay.Api
