import Relay.Lib.Backoff
import Mathlib.Algebra.Order.Field.Rat

/-!
# The listener of the diagnosis agent

`run_trigger` on a channel that others publish on. A subscription gets what is
published from then on, in order. The client library renews a lost connection
within `get_message`, and what was published meanwhile is lost. Each step is one
awaited call with the way it ends; `handle_breaker_event` counts as one call.
-/

namespace Relay.Agent.Listening

/-- `RECONNECT_BASE_DELAY_S` and `RECONNECT_MAX_DELAY_S`. -/
def reconnect : Backoff ℚ where
  base := 1
  cap := 15
  base_pos := by norm_num
  base_le := by norm_num

/-- How an awaited call ends. `get_message` answers with a message, so many others
having been lost before it, or after its timeout with none. -/
inductive Ending where
  | answers
  | message (lost : Nat)
  | unavailable
  | exception
  | cancelled
  deriving DecidableEq

/-- The await of the loop. `aclose` is in the `finally` block: an exception may be
on its way out. -/
inductive Pc where
  | subscribe
  | getMessage
  | handleBreakerEvent (position : Nat)
  | sleep
  | aclose (raising : Bool)
  | close
  | ended
  deriving DecidableEq

/-- `run_trigger`. `next` is the position of the message that the subscription
gets next. Where the subscription began, what it lost, the positions handled,
latest first, and the outages caught since it began are history. -/
structure Listener where
  stop : Bool := false
  delay : ℚ := reconnect.base
  pc : Pc := .subscribe
  next : Nat := 0
  since : Nat := 0
  lost : Nat := 0
  handled : List Nat := []
  failures : Nat := 0

namespace Listener

/-- The outer `while not stop.is_set()`. -/
def round (c : Listener) : Listener :=
  if c.stop then { c with pc := .close } else { c with pc := .subscribe }

/-- The inner one. -/
def listen (c : Listener) : Listener :=
  if c.stop then { c with pc := .aclose false } else { c with pc := .getMessage }

/-- Inside the `try`. -/
def except (c : Listener) : Ending → Listener
  | .unavailable => { c with failures := c.failures + 1, pc := .sleep }
  | _ => { c with pc := .aclose true }

/-- One await; `published` is the number of messages on the channel so far. -/
def step (published : Nat) (e : Ending) (c : Listener) : Option Listener :=
  match c.pc, e with
  | .getMessage, .message lost =>
    if c.next + lost < published then
      some { c with
        pc := .handleBreakerEvent (c.next + lost), next := c.next + lost + 1,
        lost := c.lost + lost, handled := (c.next + lost) :: c.handled }
    else none
  | _, .message _ => none
  | .subscribe, .answers =>
    some { c with
      next := published, since := published, lost := 0,
      delay := reconnect.base, failures := 0 }.listen
  | .getMessage, .answers | .handleBreakerEvent _, .answers => some c.listen
  | .subscribe, e | .getMessage, e | .handleBreakerEvent _, e => some (c.except e)
  | .sleep, .answers =>
    some { c with delay := reconnect.next c.delay, pc := .aclose false }
  | .sleep, .cancelled => some { c with pc := .aclose true }
  | .sleep, _ => none
  | .aclose _, .cancelled => some { c with pc := .ended }
  -- `suppress(Exception)`
  | .aclose raising, _ => some (if raising then { c with pc := .ended } else c.round)
  | .close, _ => some { c with pc := .ended }
  | .ended, _ => none

end Listener

/-- The channel and its listener. -/
structure Channel (M : Type) where
  published : List M
  listener : Listener

inductive Label (M : Type) where
  | publish (message : M)
  | stop
  | run (e : Ending)

namespace Channel

variable {M : Type}

def step : Label M → Channel M → Option (Channel M)
  | .publish message, x => some { x with published := x.published ++ [message] }
  | .stop, x => some { x with listener := { x.listener with stop := true } }
  | .run e, x =>
    (x.listener.step x.published.length e).map (fun c => { x with listener := c })

def initial (published : List M) : Channel M := ⟨published, {}⟩

/-- The messages that were handled, in order. -/
def received (x : Channel M) : List M :=
  x.listener.handled.reverse.filterMap (fun i => x.published[i]?)

end Channel

end Relay.Agent.Listening
