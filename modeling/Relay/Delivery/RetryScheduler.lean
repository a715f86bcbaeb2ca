import Relay.Delivery.RetryQueue
import Relay.Lib.Backoff
import Mathlib.Algebra.Order.Field.Rat

/-!
# The retry scheduler

`run_scheduler` in any number of processes over one retry set, with what other
processes schedule and remove meanwhile. Each step is one awaited call with the
way it ends; `refresh_gauges` and the two calls at the end count as one each.
-/

namespace Relay.RetryScheduler

open RetryQueue

def pollIntervalS : ℚ := 1 / 2
def batchLimit : Nat := 100
def gaugeRefreshIntervalS : ℚ := 5

theorem reconnect_base_pos : (0 : ℚ) < 1 / 2 := by norm_num

theorem reconnect_base_le : (1 / 2 : ℚ) ≤ 10 := by norm_num

/-- `RECONNECT_BASE_DELAY_S` and `RECONNECT_MAX_DELAY_S`. -/
def reconnect : Backoff ℚ where
  base := 1 / 2
  cap := 10
  base_pos := reconnect_base_pos
  base_le := reconnect_base_le

/-- How an awaited call ends. A connection may be lost before or after the
command was executed. -/
inductive Ending where
  | answers
  | unavailable (executed : Bool)
  | exception
  | cancelled
  deriving DecidableEq

/-- The await at which a scheduler is. `moved` is what its poll returned. -/
inductive Pc where
  | moveDueToStreams (now : ℚ)
  | retryQueueDepth (moved : Nat)
  | refreshGauges (moved : Nat)
  | pause
  | sleep
  | close
  | ended
  deriving DecidableEq

/-- `run_scheduler`. The outages caught since the last poll that returned, and
what the last script left due, are history. -/
structure Scheduler where
  stop : Bool := false
  delay : ℚ := reconnect.base
  nextGaugeRefresh : ℚ
  pc : Pc
  failures : Nat := 0
  leftDue : Nat := 0

namespace Scheduler

/-- `while not stop.is_set()`, on to the next await. -/
def round (time : ℚ) (c : Scheduler) : Scheduler :=
  if c.stop then { c with pc := .close } else { c with pc := .moveDueToStreams time }

def start (time : ℚ) : Scheduler := round time { nextGaugeRefresh := time, pc := .close }

/-- A full batch is followed by the next poll at once. -/
def rest (time : ℚ) (moved : Nat) (c : Scheduler) : Scheduler :=
  if moved < batchLimit then { c with pc := .pause } else c.round time

/-- `poll_once` has returned. -/
def polled (time : ℚ) (moved : Nat) (c : Scheduler) : Scheduler :=
  let reset := { c with delay := reconnect.base, failures := 0 }
  if c.nextGaugeRefresh ≤ time then { reset with pc := .refreshGauges moved }
  else reset.rest time moved

/-- Inside the `try`. -/
def except (c : Scheduler) : Ending → Scheduler
  | .unavailable _ => { c with failures := c.failures + 1, pc := .sleep }
  | _ => { c with pc := .ended }

end Scheduler

structure System where
  clock : ℚ
  queues : Queues
  schedulers : Nat → Option Scheduler
  /-- The times of the executed scripts, latest first. -/
  polls : List ℚ

inductive Label where
  | tick (time : ℚ)
  | start (i : Nat)
  | stop (i : Nat)
  | scheduleRetry (m : Member) (dueAt : ℚ)
  | removeFromRetryQueue (m : Member)
  | run (i : Nat) (e : Ending)

namespace System

def update (x : System) (i : Nat) (c : Scheduler) : System :=
  { x with schedulers := Function.update x.schedulers i (some c) }

/-- The members that are due at `now`. -/
def due (q : Queues) (now : ℚ) : List (Member × ℚ) := q.retries.upTo now

/-- `MOVE_DUE_LUA` for a poll; it returns the number of members it moved. -/
def move (x : System) (now : ℚ) : System × Nat :=
  ({ x with queues := x.queues.moveDueToStreams now batchLimit, polls := now :: x.polls },
    (x.queues.retries.rangeUpTo memberLe now batchLimit).length)

/-- The poll of a scheduler: the script, unless the command was lost. -/
def poll (x : System) (i : Nat) (c : Scheduler) (now : ℚ) : Ending → System
  | .answers =>
    let (y, moved) := x.move now
    let seen := { c with leftDue := (due y.queues now).length }
    y.update i (if moved = 0 then seen.polled x.clock moved
      else { seen with pc := .retryQueueDepth moved })
  | .unavailable true =>
    let y := (x.move now).1
    y.update i ({ c with leftDue := (due y.queues now).length }.except (.unavailable true))
  | e => x.update i (c.except e)

def stepScheduler (x : System) (i : Nat) (c : Scheduler) (e : Ending) : Option System :=
  match c.pc, e with
  | .moveDueToStreams now, e => some (x.poll i c now e)
  | .retryQueueDepth moved, .answers => some (x.update i (c.polled x.clock moved))
  | .refreshGauges moved, .answers =>
    some (x.update i ({ c with
      nextGaugeRefresh := x.clock + gaugeRefreshIntervalS }.rest x.clock moved))
  | .pause, .answers => some (x.update i (c.round x.clock))
  | .retryQueueDepth _, e | .refreshGauges _, e => some (x.update i (c.except e))
  | .pause, .cancelled | .sleep, .cancelled => some (x.update i { c with pc := .ended })
  | .pause, _ => none
  | .sleep, .answers =>
    some (x.update i ({ c with delay := reconnect.next c.delay }.round x.clock))
  | .sleep, _ => none
  | .close, _ => some (x.update i { c with pc := .ended })
  | .ended, _ => none

def step : Label → System → Option System
  | .tick time, x => if x.clock ≤ time then some { x with clock := time } else none
  | .start i, x =>
    if (x.schedulers i).isNone then some (x.update i (Scheduler.start x.clock)) else none
  | .stop i, x => (x.schedulers i).map (fun c => x.update i { c with stop := true })
  | .scheduleRetry m dueAt, x => some { x with queues := x.queues.scheduleRetry m dueAt }
  | .removeFromRetryQueue m, x => some { x with queues := x.queues.removeFromRetryQueue m }
  | .run i e, x => (x.schedulers i).bind (fun c => x.stepScheduler i c e)

def initial (queues : Queues) : System := ⟨0, queues, fun _ => none, []⟩

end System

end Relay.RetryScheduler
