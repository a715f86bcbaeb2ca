import Relay.Delivery.CircuitBreaker
import Mathlib.Data.Rat.Floor
import Mathlib.Logic.Function.Basic

/-!
# The trigger of the diagnosis agent

`handle_breaker_event` picks the messages that ask for a diagnosis, and
`claim_budget` decides whether one may run: four Redis commands and one reading
of the clock, each of which any number of calls can come between. A budget key
is gone from its deadline on.
-/

namespace Relay.Agent.Trigger

open CircuitBreaker

structure AgentSettings where
  agentMaxRunsPerEndpointPerHour : Nat := 1
  agentMaxRunsPerDay : Nat := 10

/-- What a message on the channel asks for, if it is one of the two triggers. -/
def triggeredBy : BreakerEvent → Option String
  | .transition _ _ toState _ _ => if toState = .opened then some "breaker_open" else none
  | .consecutiveFailures .. => some "consecutive_failures"

/-- The time to live of an endpoint's claim. -/
def AgentSettings.perHourSeconds (settings : AgentSettings) : Nat :=
  max 1 (3600 / max 1 settings.agentMaxRunsPerEndpointPerHour)

/-- SET NX EX. The code stores a constant that it never reads; here the value
names the call that set the key. -/
def setNx (key : Option (Expiring Nat)) (clock : ℚ) (call seconds : Nat) :
    Option (Expiring Nat) × Bool :=
  match Expiring.liveBefore clock key with
  | some _ => (key, false)
  | none => (some ⟨call, clock + seconds⟩, true)

/-- The counter of a day; INCR creates it without a time to live. -/
structure Counter where
  used : Nat
  deadline : Option ℚ

def Counter.live (clock : ℚ) : Option Counter → Option Counter
  | none => none
  | some c => if ∃ t ∈ c.deadline, t ≤ clock then none else some c

def incr (clock : ℚ) (c : Option Counter) : Counter :=
  match Counter.live clock c with
  | none => ⟨1, none⟩
  | some c => { c with used := c.used + 1 }

def expire (clock : ℚ) (seconds : Nat) (c : Option Counter) : Option Counter :=
  (Counter.live clock c).map (fun c => { c with deadline := some (clock + seconds) })

def daySeconds : Nat := 86400

/-- `datetime.now(UTC)` as the number of the day. -/
def dayOf (clock : ℚ) : ℤ := ⌊clock / daySeconds⌋

inductive ClaimPc where
  | setNx
  | readDay
  | incr (day : ℤ)
  | expire (day : ℤ) (used : Nat)
  | delete
  | done (allowed : Bool) (reason : Option String)
  deriving DecidableEq

/-- A call of `claim_budget`. -/
structure Claim where
  endpointId : Uuid
  startedAt : ℚ
  pc : ClaimPc

/-- The keys and the calls; `counted` is history, the calls whose INCR hit the
counter of a day, in order. -/
structure Budget where
  clock : ℚ
  ran : Uuid → Option (Expiring Nat)
  daily : ℤ → Option Counter
  calls : Nat → Option Claim
  counted : ℤ → List Nat

inductive BudgetLabel where
  | tick (time : ℚ)
  | call (i : Nat) (endpointId : Uuid)
  | next (i : Nat)

namespace Budget

def initial : Budget := ⟨0, fun _ => none, fun _ => none, fun _ => none, fun _ => []⟩

def goto (x : Budget) (i : Nat) (c : Claim) (pc : ClaimPc) : Budget :=
  { x with calls := Function.update x.calls i (some { c with pc := pc }) }

/-- After the count: allowed, or the claim is given back. -/
def counts (settings : AgentSettings) (used : Nat) : ClaimPc :=
  if settings.agentMaxRunsPerDay < used then .delete else .done true none

/-- The next command of call `i`. -/
def stepNext (settings : AgentSettings) (i : Nat) (c : Claim) (x : Budget) : Option Budget :=
  match c.pc with
  | .setNx =>
    match setNx (x.ran c.endpointId) x.clock i settings.perHourSeconds with
    | (key, true) =>
      some ({ x with ran := Function.update x.ran c.endpointId key }.goto i c .readDay)
    | (_, false) => some (x.goto i c (.done false (some "endpoint_rate_limited")))
  | .readDay => some (x.goto i c (.incr (dayOf x.clock)))
  | .incr day =>
    let counter := Trigger.incr x.clock (x.daily day)
    let x' := { x with
      daily := Function.update x.daily day (some counter)
      counted := Function.update x.counted day (x.counted day ++ [i]) }
    if counter.used = 1 then some (x'.goto i c (.expire day counter.used))
    else some (x'.goto i c (counts settings counter.used))
  | .expire day used =>
    some ({ x with
      daily := Function.update x.daily day
        (Trigger.expire x.clock (daySeconds * 2) (x.daily day)) }.goto i c (counts settings used))
  | .delete =>
    some ({ x with ran := Function.update x.ran c.endpointId none }.goto i c
      (.done false (some "daily_budget_exhausted")))
  | .done _ _ => none

def step (settings : AgentSettings) : BudgetLabel → Budget → Option Budget
  | .tick time, x => if x.clock ≤ time then some { x with clock := time } else none
  | .call i endpointId, x =>
    match x.calls i with
    | some _ => none
    | none => some (x.goto i ⟨endpointId, x.clock, .setNx⟩ .setNx)
  | .next i, x =>
    match x.calls i with
    | none => none
    | some c => stepNext settings i c x

end Budget

end Relay.Agent.Trigger
