import Relay.Api.Parts
import Relay.Delivery.BreakerCalls
import Relay.Delivery.Gauges
import Relay.Lib.Transition

/-!
# Whether the gauges show the present

The refreshes of the scheduler among changes of the store. What may change the
store is a parameter: the results hold whatever the changes are.
-/

namespace Relay.Gauges

open Transition CircuitBreaker

variable {L : Type}

structure Scraped where
  store : Store
  gauges : Gauges

inductive Sweep (L : Type) where
  | change (l : L)
  | refresh

namespace Scraped

def start (s : Store) : Scraped := ⟨s, {}⟩

def step (change : L → Store → Option Store) : Sweep L → Scraped → Option Scraped
  | .change l, x => (change l x.store).map (fun s => { x with store := s })
  | .refresh, x => some { x with gauges := refresh x.store x.gauges }

variable {change : L → Store → Option Store} {x y : Scraped} {l : Sweep L}

theorem nonzero_step (nonzero : x.gauges.Nonzero) (next : step change l x = some y) :
    y.gauges.Nonzero := by
  cases l with
  | change l =>
    obtain ⟨s, _, rfl⟩ := Option.map_eq_some_iff.mp next
    exact nonzero
  | refresh =>
    obtain rfl := Option.some.inj next
    exact nonzero.refresh x.store

/-- A refresh after any run leaves every exported series at its present value if
and only if, at that moment, every tenant exported before has a dead delivery and
every endpoint exported before has a breaker that is not closed, and is active or
has the state it was last exported with. -/
theorem refresh_present {s : Store} (run : Run (step change) (fun _ _ => True) (start s) x)
    (next : step change .refresh x = some y) :
    Exact y.store y.gauges ↔ Current x.store x.gauges := by
  have nonzero : x.gauges.Nonzero := run.invariant (I := fun x => x.gauges.Nonzero)
    nonzero_initial (fun nonzero _ next => nonzero_step nonzero next)
  obtain rfl := Option.some.inj next
  exact refresh_exact nonzero

end Scraped

/-! Deliveries, endpoints and breakers that change -/

inductive Change where
  | endpoint (e : Endpoint)
  | delivery (d : Delivery)
  | commit (loaded current : Delivery)
  | endpointStatus (endpointId : Uuid) (status : EndpointStatus)
  | delete (endpointId : Uuid)
  | breaker (endpointId : Uuid) (c : CircuitBreaker.Call)

namespace Change

def apply : Change → Store → Option Store
  | .endpoint e, s => some (Api.addEndpoint s e)
  | .delivery d, s => some { s with db := { s.db with deliveries := s.db.deliveries ++ [d] } }
  | .commit loaded current, s => some (s.commitDelivery .outcome loaded current)
  | .endpointStatus endpointId status, s => some (s.setEndpointStatus endpointId status)
  | .delete endpointId, s => some (Api.deleteRow s endpointId)
  | .breaker endpointId (.allowRequest now), s => some (s.allowRequest endpointId now).1
  | .breaker endpointId (.recordOutcome clock now success member), s =>
    some (s.recordOutcome endpointId success clock now member).1
  | .breaker endpointId .reset, s => some (s.resetBreaker endpointId)

def empty : Store := (World.initial (fun _ => 0)).store

/-- A delivery to an endpoint that has failed for good, and ten failures in a row. -/
def outage : List (Sweep Change) :=
  [.change (.endpoint ⟨1, 7, "", "", .unordered, .active, []⟩),
    .change (.delivery ⟨2, 3, 1, .dead, 6, none⟩)] ++
  Observed.tripped.map (fun c => .change (.breaker 1 c)) ++ [.refresh]

end Change

open Change in
/-- During an outage the gauges are right. -/
theorem refresh_present_outage : ∃ x y : Scraped,
    Run (Scraped.step apply) (fun _ _ => True) (Scraped.start empty) x ∧
      Scraped.step apply .refresh x = some y ∧ y.gauges.dlqSize 7 = some 1 ∧
      y.gauges.breakerState 1 = some 2 ∧
      (Exact y.store y.gauges ↔ Current x.store x.gauges) := by
  have evaluates : (exec (Scraped.step apply) (fun _ _ => true) outage
      (Scraped.start empty)).elim false (fun x =>
        (Scraped.step apply .refresh x).elim false (fun y => decide
          (y.gauges.dlqSize 7 = some 1 ∧ y.gauges.breakerState 1 = some 2))) = true := by
    decide +kernel
  obtain ⟨x, executed, passes⟩ := reached evaluates
  obtain ⟨y, next, shown⟩ := reached passes
  obtain ⟨dlqSize, breakerState⟩ := of_decide_eq_true shown
  have run := run_of_exec (fun _ _ _ => trivial) executed
  exact ⟨x, y, run, next, dlqSize, breakerState, Scraped.refresh_present run next⟩

open Change in
/-- The delivery is replayed and succeeds, the breaker closes: a refresh later
both series still show the outage. -/
theorem refresh_present_recovered : ∃ x y : Scraped,
    Run (Scraped.step apply) (fun _ _ => True) (Scraped.start empty) x ∧
      Scraped.step apply .refresh x = some y ∧
      y.gauges.dlqSize 7 = some 1 ∧ y.store.db.deadOf 7 = 0 ∧
      y.gauges.breakerState 1 = some 2 ∧ breakerValue y.store 1 = 0 ∧
      ¬ Exact y.store y.gauges := by
  have evaluates : (exec (Scraped.step apply) (fun _ _ => true)
      (outage ++
        [.change (.commit ⟨2, 3, 1, .dead, 6, none⟩ ⟨2, 3, 1, .delivered, 7, none⟩),
        .change (.breaker 1 (.recordOutcome 20 20 true 50))])
      (Scraped.start empty)).elim false (fun x =>
        (Scraped.step apply .refresh x).elim false (fun y => decide
          (y.gauges.dlqSize 7 = some 1 ∧ y.store.db.deadOf 7 = 0 ∧
            y.gauges.breakerState 1 = some 2 ∧ breakerValue y.store 1 = 0))) = true := by
    decide +kernel
  obtain ⟨x, executed, passes⟩ := reached evaluates
  obtain ⟨y, next, shown⟩ := reached passes
  obtain ⟨exported, none, broken, closed⟩ := of_decide_eq_true shown
  have stale : ¬ Exact y.store y.gauges := by
    intro exact
    have same := exact.dlqSize 7 1 exported
    rw [none] at same
    cases same
  exact ⟨x, y, run_of_exec (fun _ _ _ => trivial) executed, next, exported, none, broken, closed,
    stale⟩

end Relay.Gauges
