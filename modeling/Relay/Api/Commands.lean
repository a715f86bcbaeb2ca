import Relay.Store

/-!
# The Redis commands of the request loops

After its commit a request issues a straight sequence of Redis commands, one
group for every delivery. Between any two of them other processes may run.
-/

namespace Relay.Api

open Enqueue RetryQueue

structure ApiError where
  statusCode : Nat
  code : String
  message : String
  deriving DecidableEq, Repr

def notFound (resource : String) : ApiError := ⟨404, "not_found", resource ++ " not found"⟩

inductive Command where
  | zrem (m : Member)
  | rpush (endpointId deliveryId : Uuid)
  | xadd (f : Fields)
  deriving DecidableEq

def Command.exec (streamShards : Nat) (source : Source) (s : Store) : Command → Store
  | .zrem m => s.removeFromRetryQueue m
  | .rpush endpointId deliveryId => s.enqueueOrdered endpointId deliveryId
  | .xadd f => s.enqueueDelivery streamShards source f

def execAll (streamShards : Nat) (source : Source) (s : Store) (commands : List Command) : Store :=
  commands.foldl (Command.exec streamShards source) s

/-- The entry that a command appends. -/
def Command.appends : Command → Option Fields
  | .xadd f => some f
  | _ => none

theorem count_xadd (commands : List Command) (f : Fields) :
    commands.count (.xadd f) = (commands.filterMap Command.appends).count f := by
  induction commands with
  | nil => rfl
  | cons c rest ih =>
    cases c with
    | xadd g => simp [Command.appends, List.count_cons, ih]
    | zrem m | rpush e d => simp [Command.appends, List.filterMap_cons, ih]

/-- `enqueue_delivery` of a row. -/
def Command.enqueue (d : Delivery) : Command := .xadd ⟨d.id, d.eventId, d.endpointId⟩

/-- RPUSH before XADD, and only for an ordered endpoint. -/
def Command.enqueueInOrder (ordered : Bool) (d : Delivery) : List Command :=
  (if ordered then [.rpush d.endpointId d.id] else []) ++ [Command.enqueue d]

/-- The columns that both replay paths assign. -/
def requeued (d : Delivery) : Delivery :=
  { d with status := .pending, attemptCount := 0, nextAttemptAt := none }

/-- The commit of the replay paths: every selected row, by primary key. -/
def commitRequeued (s : Store) (rows : List Delivery) : Store :=
  rows.foldl (fun s row => s.commitDelivery .requeued row (requeued row)) s

/-! What these writes leave alone -/

theorem Command.exec_frame (streamShards : Nat) (source : Source) (s : Store) (c : Command) :
    ∃ queues ordered log, c.exec streamShards source s =
      { s with queues := queues, ordered := ordered, log := log } := by
  cases c <;> exact ⟨_, _, _, rfl⟩

theorem execAll_frame (streamShards : Nat) (source : Source) (s : Store)
    (commands : List Command) : ∃ queues ordered log, execAll streamShards source s commands =
      { s with queues := queues, ordered := ordered, log := log } := by
  unfold execAll
  induction commands generalizing s with
  | nil => exact ⟨_, _, _, rfl⟩
  | cons c rest ih =>
    obtain ⟨queues, ordered, log, first⟩ := c.exec_frame streamShards source s
    obtain ⟨queues', ordered', log', later⟩ := ih (c.exec streamShards source s)
    refine ⟨queues', ordered', log', ?_⟩
    rw [List.foldl_cons, later, first]

theorem db_execAll {streamShards : Nat} (source : Source) (s : Store) (commands : List Command) :
    (execAll streamShards source s commands).db = s.db := by
  obtain ⟨queues, ordered, log, executed⟩ := execAll_frame streamShards source s commands
  rw [executed]

theorem commitRequeued_frame (s : Store) (rows : List Delivery) :
    ∃ deliveries log, commitRequeued s rows =
      { s with db := { s.db with deliveries := deliveries }, log := log } := by
  unfold commitRequeued
  induction rows generalizing s with
  | nil => exact ⟨_, _, rfl⟩
  | cons row rest ih =>
    obtain ⟨deliveries, log, later⟩ := ih (s.commitDelivery .requeued row (requeued row))
    refine ⟨deliveries, log, ?_⟩
    rw [List.foldl_cons, later]
    rfl

/-! What the commit does to the rows -/

theorem flush_requeued (d : Delivery) : d.flush (requeued d) d = requeued d := by
  unfold Delivery.flush requeued
  congr 1 <;> · split <;> simp_all

theorem delivery_commitRequeued (s : Store) {rows : List Delivery}
    (distinct : (rows.map Delivery.id).Nodup)
    (present : ∀ d ∈ rows, s.db.delivery d.id = some d) :
    (∀ d ∈ rows, (commitRequeued s rows).db.delivery d.id = some (requeued d)) ∧
      ∀ id, id ∉ rows.map Delivery.id →
        (commitRequeued s rows).db.delivery id = s.db.delivery id := by
  unfold commitRequeued
  induction rows generalizing s with
  | nil => exact ⟨fun d h => absurd h List.not_mem_nil, fun _ _ => rfl⟩
  | cons a rest ih =>
    obtain ⟨fresh, distinct⟩ := List.nodup_cons.mp distinct
    have first (id : Uuid) : (s.commitDelivery .requeued a (requeued a)).db.delivery id =
        if id = a.id then (s.db.delivery id).map (a.flush (requeued a)) else s.db.delivery id :=
      s.db.delivery_updateDelivery a (requeued a) id
    have present' : ∀ d ∈ rest,
        (s.commitDelivery .requeued a (requeued a)).db.delivery d.id = some d := by
      intro d listed
      have other : d.id ≠ a.id := fun same => fresh (same ▸ List.mem_map_of_mem listed)
      rw [first, if_neg other]
      exact present d (List.mem_cons_of_mem _ listed)
    obtain ⟨rows, others⟩ := ih (s.commitDelivery .requeued a (requeued a)) distinct present'
    refine ⟨fun d listed => ?_, fun id absent => ?_⟩
    · rcases List.mem_cons.mp listed with rfl | later
      · rw [List.foldl_cons, others d.id fresh, first, if_pos rfl, present d List.mem_cons_self,
          Option.map_some, flush_requeued]
      · exact rows d later
    · obtain ⟨other, absent⟩ := not_or.mp (List.mem_cons.not.mp absent)
      rw [List.foldl_cons, others id absent, first, if_neg other]

end Relay.Api
