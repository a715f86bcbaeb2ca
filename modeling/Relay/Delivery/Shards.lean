import Relay.Delivery.Enqueue
import Relay.Lib.Backoff
import Mathlib.Algebra.Order.Field.Rat
import Mathlib.Data.List.Perm.Basic

/-!
# The tasks of a worker process

`consume_shard` for one shard, and `supervise_shards` over one task per shard.
Each step is one awaited call with the way it ends, and runs on to the next
await; `reclaim_stale` and `handle_message` count as one call each. A task may
be anywhere when another one moves, when the process is told to stop or when
the supervisor is cancelled.
-/

namespace Relay.Shards

open Enqueue

/-- `RECONNECT_BASE_DELAY_S` and `RECONNECT_MAX_DELAY_S`. -/
def reconnect : Backoff ℚ where
  base := 1 / 2
  cap := 10
  base_pos := by norm_num
  base_le := by norm_num

def reclaimIntervalS : ℚ := 30
def waitTimeoutS : ℚ := 5

/-- How an awaited call ends. What the retry envelope catches is a `RedisError`
or an `OSError`; a cancellation is no `Exception`. -/
inductive Ending where
  | answers (messages : List (Nat × Fields))
  | unavailable
  | exception
  | cancelled
  deriving DecidableEq

inductive Outcome where
  | returned
  | raised
  | cancelled
  deriving DecidableEq

/-- The await at which a task is. -/
inductive Pc where
  | created
  | reclaimStale
  | xreadgroup
  | handleMessage (message : Nat × Fields) (rest : List (Nat × Fields))
  | sleep
  | ensureGroup
  | ended (outcome : Outcome)
  deriving DecidableEq

/-- `consume_shard`. When the await began, the last reclaim pass and the outages
caught since the last answered read are history. -/
structure ShardTask where
  shard : Nat
  delay : ℚ := reconnect.base
  nextReclaim : ℚ
  pc : Pc := .created
  calledAt : ℚ
  reclaimedAt : Option ℚ := none
  failures : Nat := 0

namespace ShardTask

def Ended (t : ShardTask) : Prop :=
  match t.pc with
  | .ended _ => True
  | _ => False

instance (t : ShardTask) : Decidable t.Ended := by
  unfold Ended
  split <;> infer_instance

def create (shard : Nat) (time : ℚ) : ShardTask :=
  { shard := shard, nextReclaim := time, calledAt := time }

def goto (t : ShardTask) (time : ℚ) (pc : Pc) : ShardTask := { t with pc := pc, calledAt := time }

/-- `while not stop.is_set()`, on to the first await of the round. -/
def round (stop : Bool) (time : ℚ) (t : ShardTask) : ShardTask :=
  if stop then t.goto time (.ended .returned)
  else if t.nextReclaim ≤ time then t.goto time .reclaimStale
  else t.goto time .xreadgroup

/-- The loop over the messages. -/
def handle (stop : Bool) (time : ℚ) (t : ShardTask) : List (Nat × Fields) → ShardTask
  | [] => t.round stop time
  | message :: rest => t.goto time (.handleMessage message rest)

/-- Inside the `try`: what an exception does. -/
def except (time : ℚ) (t : ShardTask) : Ending → ShardTask
  | .unavailable => { t with failures := t.failures + 1 }.goto time .sleep
  | .cancelled => t.goto time (.ended .cancelled)
  | _ => t.goto time (.ended .raised)

def step (stop : Bool) (time : ℚ) (e : Ending) (t : ShardTask) : Option ShardTask :=
  match t.pc, e with
  | .created, .answers _ => some ({ t with nextReclaim := time }.round stop time)
  | .created, .cancelled => some (t.goto time (.ended .cancelled))
  | .created, _ => none
  | .reclaimStale, .answers _ =>
    some ({ t with nextReclaim := time + reclaimIntervalS, reclaimedAt := some time }.goto time
      .xreadgroup)
  | .xreadgroup, .answers messages =>
    some ({ t with delay := reconnect.base, failures := 0 }.handle stop time messages)
  | .handleMessage _ rest, .answers _ => some (t.handle stop time rest)
  | .reclaimStale, e | .xreadgroup, e | .handleMessage _ _, e => some (t.except time e)
  | .sleep, .answers _ =>
    some ({ t with delay := reconnect.next t.delay }.goto time .ensureGroup)
  | .sleep, .cancelled | .ensureGroup, .cancelled => some (t.goto time (.ended .cancelled))
  | .sleep, _ => none
  -- `suppress(Exception)`
  | .ensureGroup, _ => some (t.round stop time)
  | .ended _, _ => none

end ShardTask

/-! The supervisor -/

inductive Await where
  | wait
  | gather (outcome : Outcome)
  | ended (outcome : Outcome)
  deriving DecidableEq

/-- All tasks that were ever created, by number; `tasks` is the dictionary from
tasks to shards. -/
structure Supervisor where
  clock : ℚ
  stop : Bool
  created : List ShardTask := []
  tasks : List (Nat × Nat) := []
  await : Await := .wait
  since : ℚ

inductive Label where
  | tick (time : ℚ)
  | stop
  | run (task : Nat) (e : Ending)
  | wake (done : List (Nat × Nat))
  | cancel
  | gathered

namespace Supervisor

def spawn (s : Supervisor) (shard : Nat) : Supervisor :=
  { s with
    created := s.created ++ [ShardTask.create shard s.clock]
    tasks := s.tasks ++ [(s.created.length, shard)] }

/-- `while not stop.is_set()`; after it the tasks are cancelled. -/
def again (s : Supervisor) : Supervisor :=
  if s.stop then { s with await := .gather .returned }
  else { s with await := .wait, since := s.clock }

/-- Up to the first await. -/
def superviseShards (streamShards : Nat) (clock : ℚ) (stop : Bool) : Supervisor :=
  ((List.range streamShards).foldl spawn { clock := clock, stop := stop, since := clock }).again

/-- The task has ended. -/
def IsDone (s : Supervisor) (task : Nat) : Prop := ∃ t, s.created[task]? = some t ∧ t.Ended

instance (s : Supervisor) (task : Nat) : Decidable (s.IsDone task) :=
  match found : s.created[task]? with
  | none => isFalse (fun ⟨_, here, _⟩ => nomatch found.symm.trans here)
  | some t =>
    if ended : t.Ended then isTrue ⟨t, found, ended⟩
    else isFalse
      (fun ⟨_, here, done⟩ => ended (Option.some.inj (found.symm.trans here) ▸ done))

/-- The body of the loop over `done`. -/
def restart (s : Supervisor) (entry : Nat × Nat) : Supervisor :=
  let popped := { s with tasks := s.tasks.filter (fun e => e ≠ entry) }
  if s.stop then popped else popped.spawn entry.2

def step : Label → Supervisor → Option Supervisor
  | .tick time, s => if s.clock ≤ time then some { s with clock := time } else none
  | .stop, s => some { s with stop := true }
  | .run task e, s =>
    match s.created[task]? with
    | none => none
    | some t =>
      -- only the supervisor cancels a task, on its way out
      if e = .cancelled ∧ (s.await = .wait ∨ task ∉ s.tasks.map Prod.fst) then none
      else
        match t.step s.stop s.clock e with
        | none => none
        | some t' => some { s with created := s.created.set task t' }
  | .wake done, s =>
    match s.await with
    | .wait =>
      -- `asyncio.wait` refuses an empty set
      if s.tasks = [] then some { s with await := .gather .raised }
      else if done.Perm (s.tasks.filter (fun e => s.IsDone e.1)) ∧
          (done ≠ [] ∨ s.since + waitTimeoutS ≤ s.clock) then
        some (done.foldl restart s).again
      else none
    | _ => none
  | .cancel, s =>
    match s.await with
    | .wait => some { s with await := .gather .cancelled }
    | _ => none
  | .gathered, s =>
    match s.await with
    | .gather outcome =>
      if s.tasks.all (fun e => s.IsDone e.1) then some { s with await := .ended outcome } else none
    | _ => none

end Supervisor

end Relay.Shards
