import Relay.Delivery.CircuitBreaker

/-!
# Calls on the breaker of one endpoint

Any number of workers call; every call is one script. Beside the breaker an
observer notes the time of the latest call, since when the breaker has not been
closed, and when probes were granted.
-/

namespace Relay.CircuitBreaker

inductive Call where
  | allowRequest (now : ℚ)
  | recordOutcome (clock now : ℚ) (success : Bool) (member : Uuid)
  | reset
  deriving DecidableEq

structure Observed where
  breaker : Breaker
  /-- The largest timestamp of a call so far. -/
  latest : Option ℚ
  /-- The time of the most recent transition out of closed. -/
  outSince : Option ℚ
  /-- Times of the calls answered with a probe, the latest first. -/
  probes : List ℚ
  /-- No outcome and no reset since the last probe was granted. -/
  probing : Bool

namespace Observed

def initial : Observed := ⟨{}, none, none, [], false⟩

/-- Since when the breaker is not closed, after a change at `now`. -/
def notClosedSince (before after : Breaker) (now : ℚ) (since : Option ℚ) : Option ℚ :=
  if after.current = .closed then none
  else if before.current = .closed then some now
  else since

def step : Call → Observed → Option Observed
  | .allowRequest now, o =>
    let answer := allowRequestLua o.breaker now
    some
      { breaker := answer.1
        latest := some now
        outSince := notClosedSince o.breaker answer.1 now o.outSince
        probes := if answer.2.1 = .probe then now :: o.probes else o.probes
        probing := if answer.2.1 = .probe then true else o.probing }
  | .recordOutcome clock now success member, o =>
    let answer := recordOutcomeLua o.breaker clock now success member
    some
      { breaker := answer.1
        latest := some now
        outSince := notClosedSince o.breaker answer.1 now o.outSince
        probes := o.probes
        probing := false }
  | .reset, o => some { o with breaker := CircuitBreaker.reset, outSince := none, probing := false }

/-- Timestamps do not decrease. -/
def InOrder (o : Observed) : Call → Prop
  | .allowRequest now | .recordOutcome _ now _ _ => ∀ t ∈ o.latest, t ≤ now
  | .reset => True

instance (o : Observed) (c : Call) : Decidable (o.InOrder c) :=
  match c with
  | .allowRequest now | .recordOutcome _ now _ _ =>
    inferInstanceAs (Decidable (∀ t ∈ o.latest, t ≤ now))
  | .reset => isTrue trivial

/-- Ten failures in a row, at 1 s to 10 s. -/
def tripped : List Call :=
  (List.range 10).map (fun (i : Nat) => .recordOutcome (1 + i) (1 + i) false (BitVec.ofNat 128 i))

end Observed

end Relay.CircuitBreaker
