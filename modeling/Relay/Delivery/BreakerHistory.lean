import Relay.Delivery.BreakerCalls

/-!
# A breaker beside its history

The calls on the breaker of one endpoint, with what has been recorded and
published since the last success, the last closing and the last reset.
-/

namespace Relay.CircuitBreaker

/-- An outcome as it was recorded. -/
structure Recording where
  time : ℚ
  success : Bool
  member : Uuid
  deriving DecidableEq

structure Watched where
  breaker : Breaker
  /-- The time of the latest call. -/
  latest : Option ℚ
  /-- The outcomes since the last closing or reset, the latest last. -/
  outcomes : List Recording
  /-- The number of failures since the last success or reset. -/
  streak : Nat
  /-- The ids of all members so far. -/
  members : List Uuid
  /-- What has been published since the last success or reset. -/
  events : List BreakerEvent

namespace Watched

def initial : Watched := ⟨{}, none, [], 0, [], []⟩

/-- `record_outcome`: the script, and the second message if it is due. -/
def messages (endpointId : Uuid) (before : BreakerState) (success : Bool)
    (o : Outcome) (now : ℚ) : List BreakerEvent :=
  transitionEvent endpointId before o now ++
    if triggersDiagnosis success o then [.consecutiveFailures endpointId o.consecutive now] else []

/-- The script closes the breaker. -/
def Closes (o : Outcome) : Prop := o.transitioned = true ∧ o.state = .closed

instance (o : Outcome) : Decidable (Closes o) := inferInstanceAs (Decidable (_ ∧ _))

def step (endpointId : Uuid) : Call → Watched → Option Watched
  | .allowRequest now, x =>
    some { x with breaker := (allowRequestLua x.breaker now).1, latest := some now }
  | .recordOutcome clock now success member, x =>
    let answer := recordOutcomeLua x.breaker clock now success member
    some
      { breaker := answer.1
        latest := some now
        outcomes := if Closes answer.2 then [] else x.outcomes ++ [⟨now, success, member⟩]
        streak := if success then 0 else x.streak + 1
        members := member :: x.members
        events :=
          if success then []
          else x.events ++ messages endpointId x.breaker.current success answer.2 now }
  | .reset, x => some ⟨CircuitBreaker.reset, x.latest, [], 0, x.members, []⟩

/-- Timestamps do not decrease, the server's clock is the caller's, and member
ids do not repeat. -/
def InTime (x : Watched) : Call → Prop
  | .allowRequest now => ∀ t ∈ x.latest, t ≤ now
  | .recordOutcome clock now _ member =>
    (∀ t ∈ x.latest, t ≤ now) ∧ clock = now ∧ member ∉ x.members
  | .reset => True

instance (x : Watched) (c : Call) : Decidable (x.InTime c) :=
  match c with
  | .allowRequest now => inferInstanceAs (Decidable (∀ t ∈ x.latest, t ≤ now))
  | .recordOutcome _ _ _ _ => inferInstanceAs (Decidable (_ ∧ _ ∧ _))
  | .reset => isTrue trivial

/-! What the script does to counter and windows -/

/-- What a recording leaves of the counter and the two windows. -/
inductive Counts (b b' : Breaker) (o : Outcome) (clock now : ℚ) (success : Bool) (member : Uuid) :
    Prop where
  | closes (succeeded : success = true) (closes : Closes o) (attempts : b'.attempts = none)
      (failures : b'.failures = none) (consecutive : b'.consecutive = some 0)
  | counts (stays : ¬ Closes o)
      (attempts : b'.attempts = some
        ⟨(trim clock (now - windowSeconds) b.attempts).zadd member now,
          clock + windowSeconds * 2⟩)
      (failures : b'.failures =
        if success then
          b.failures.map (fun k => ⟨trim clock (now - windowSeconds) b.failures, k.deadline⟩)
        else some
          ⟨(trim clock (now - windowSeconds) b.failures).zadd member now,
            clock + windowSeconds * 2⟩)
      (consecutive : b'.consecutive = some (if success then 0 else b.consecutive.getD 0 + 1))

theorem recordOutcomeLua_counts (b : Breaker) (clock now : ℚ) (success : Bool) (member : Uuid) :
    Counts b (recordOutcomeLua b clock now success member).1
      (recordOutcomeLua b clock now success member).2 clock now success member := by
  have leaves := nextState_ne_halfOpen b.current success
  unfold recordOutcomeLua
  simp only
  generalize newState : nextState b.current success _ _ _ = new
  by_cases same : new = b.current
  · rw [if_pos same]
    have still : ¬ Closes ⟨new, if success then 0 else b.consecutive.getD 0 + 1,
        decide (new ≠ b.current)⟩ := fun closes => of_decide_eq_true closes.1 same
    refine .counts still rfl ?_ rfl
    cases success <;> rfl
  · rw [if_neg same]
    cases new with
    | closed =>
      have succeeded := nextState_closed (Ne.symm same) newState
      exact .closes succeeded ⟨decide_eq_true same, rfl⟩ rfl rfl rfl
    | opened =>
      have still : ¬ Closes ⟨.opened, if success then 0 else b.consecutive.getD 0 + 1,
          decide (BreakerState.opened ≠ b.current)⟩ := fun closes => by cases closes.2
      refine .counts still rfl ?_ rfl
      cases success <;> rfl
    | halfOpen => exact absurd newState (leaves _ _ _)

theorem nextState_success (state : BreakerState) (consecutive attempts failures : Nat) :
    nextState state true consecutive attempts failures = .closed := by
  cases state <;> rfl

/-- After a success the breaker is closed. -/
theorem recordOutcomeLua_success (b : Breaker) (clock now : ℚ) (member : Uuid) :
    (recordOutcomeLua b clock now true member).1.current = .closed := by
  rw [recordOutcomeLua_current]
  simp only [recordOutcomeLua, nextState_success]

/-- Asking for permission touches neither the counter nor the windows. -/
theorem allowRequestLua_keeps (b : Breaker) (now : ℚ) :
    (allowRequestLua b now).1.attempts = b.attempts ∧
      (allowRequestLua b now).1.failures = b.failures ∧
      (allowRequestLua b now).1.consecutive = b.consecutive := by
  unfold allowRequestLua
  split
  · exact ⟨rfl, rfl, rfl⟩
  · split <;> exact ⟨rfl, rfl, rfl⟩
  · exact ⟨rfl, rfl, rfl⟩

end Watched

end Relay.CircuitBreaker
