import Relay.Config
import Relay.Lib.Expiring
import Relay.Lib.ZSet

/-!
# The circuit breaker of one endpoint

closed -> open -> half_open -> (closed | open). A breaker is the state hash and
the two sorted sets of the sliding window, as the two scripts read and write
them. Absent hash fields are `none`, and an absent state reads as closed.
-/

namespace Relay.CircuitBreaker

def consecutiveFailureThreshold : Nat := 10
def consecutiveFailureTrigger : Nat := 5
def windowSeconds : ℚ := 300
def windowMinAttempts : Nat := 20
def failureRateThreshold : ℚ := 1 / 2
def halfOpenProbeIntervalSeconds : ℚ := 600
def autoDisableAfterSeconds : ℚ := 72 * 3600

inductive BreakerState where
  | closed
  | opened
  | halfOpen
  deriving DecidableEq, Repr

/-- The value of the field `state`. -/
def stateText : BreakerState → String
  | .closed => "closed"
  | .opened => "open"
  | .halfOpen => "half_open"

inductive Decision where
  | allow
  | deny
  | probe
  deriving DecidableEq, Repr

structure Breaker where
  state : Option BreakerState := none
  consecutive : Option Nat := none
  openedAt : Option ℚ := none
  lastProbeAt : Option ℚ := none
  attempts : Option (Expiring (ZSet Uuid)) := none
  failures : Option (Expiring (ZSet Uuid)) := none

/-- Messages on the channel `relay:breaker-events`. -/
inductive BreakerEvent where
  | transition (endpointId : Uuid) (fromState toState : BreakerState) (time : ℚ)
      (consecutive : Nat)
  | consecutiveFailures (endpointId : Uuid) (consecutive : Nat) (time : ℚ)
  deriving DecidableEq

/-- What `RECORD_OUTCOME_LUA` returns. -/
structure Outcome where
  state : BreakerState
  consecutive : Nat
  transitioned : Bool
  deriving DecidableEq

def Breaker.current (b : Breaker) : BreakerState := b.state.getD .closed

def trim (clock cutoff : ℚ) (window : Option (Expiring (ZSet Uuid))) : ZSet Uuid :=
  ((Expiring.live clock window).getD ZSet.empty).zremUpTo cutoff

/-- The state that an outcome leads to, given the counters after recording it. -/
def nextState (state : BreakerState) (success : Bool) (consecutive attempts failures : Nat) :
    BreakerState :=
  if success then
    if state = .halfOpen ∨ state = .opened then .closed else state
  else
    match state with
    | .halfOpen => .opened
    | .closed =>
      let rateTripped := windowMinAttempts ≤ attempts ∧
        failureRateThreshold < (failures : ℚ) / attempts
      if consecutiveFailureThreshold ≤ consecutive ∨ rateTripped then .opened else .closed
    | .opened => .opened

/-- The writes that a change of state adds to those of the recording. -/
def enter (recorded : Breaker) (newState : BreakerState) (now : ℚ) : Breaker :=
  match newState with
  | .opened =>
    { recorded with state := some .opened, openedAt := some now, lastProbeAt := some now }
  | .closed =>
    -- recovered: the history goes too, so old failures cannot trip it again
    { recorded with
      state := some .closed
      openedAt := none
      lastProbeAt := none
      consecutive := some 0
      attempts := none
      failures := none }
  | .halfOpen => { recorded with state := some .halfOpen }

/-- `RECORD_OUTCOME_LUA`. `clock` is the server's own clock, which decides the
expiry of the window keys; `now` is the time that the caller passes. -/
def recordOutcomeLua (b : Breaker) (clock now : ℚ) (success : Bool) (member : Uuid) :
    Breaker × Outcome :=
  let state := b.current
  let cutoff := now - windowSeconds
  let attempts := (trim clock cutoff b.attempts).zadd member now
  let trimmed := trim clock cutoff b.failures
  let failures := if success then trimmed else trimmed.zadd member now
  let consecutive := if success then 0 else b.consecutive.getD 0 + 1
  let newState := nextState state success consecutive attempts.card failures.card
  let recorded : Breaker :=
    { b with
      consecutive := some consecutive
      attempts := some ⟨attempts, clock + windowSeconds * 2⟩
      failures :=
        if success then b.failures.map (fun k => ⟨failures, k.deadline⟩)
        else some ⟨failures, clock + windowSeconds * 2⟩ }
  (if newState = state then recorded else enter recorded newState now,
    ⟨newState, consecutive, decide (newState ≠ state)⟩)

/-- `ALLOW_REQUEST_LUA`. -/
def allowRequestLua (b : Breaker) (now : ℚ) : Breaker × Decision × BreakerState :=
  match b.current with
  | .closed => (b, .allow, .closed)
  | .opened =>
    if halfOpenProbeIntervalSeconds ≤ now - b.lastProbeAt.getD 0 then
      ({ b with state := some .halfOpen, lastProbeAt := some now }, .probe, .halfOpen)
    else (b, .deny, .opened)
  | .halfOpen => (b, .deny, .halfOpen)

/-- The message that the script publishes on a transition. -/
def transitionEvent (endpointId : Uuid) (before : BreakerState) (o : Outcome) (now : ℚ) :
    List BreakerEvent :=
  if o.transitioned then [.transition endpointId before o.state now o.consecutive] else []

/-- `record_outcome` publishes a second message when this holds of the answer. -/
def triggersDiagnosis (success : Bool) (o : Outcome) : Prop :=
  success = false ∧ o.consecutive = consecutiveFailureTrigger ∧ o.state = .closed

instance (success : Bool) (o : Outcome) : Decidable (triggersDiagnosis success o) :=
  inferInstanceAs (Decidable (_ ∧ _ ∧ _))

/-- `should_auto_disable` on the hash that `get_state` reads. -/
def shouldAutoDisable (b : Breaker) (now : ℚ) : Bool :=
  if b.current = .closed then false
  else
    match b.openedAt with
    | none => false
    | some openedAt => decide (autoDisableAfterSeconds ≤ now - openedAt)

def reset : Breaker := {}

/-- An outcome always leaves half_open. -/
theorem nextState_ne_halfOpen (state : BreakerState) (success : Bool)
    (consecutive attempts failures : Nat) :
    nextState state success consecutive attempts failures ≠ .halfOpen := by
  cases success with
  | true =>
    cases state <;> simp [nextState]
  | false =>
    cases state with
    | closed =>
      simp only [nextState, Bool.false_eq_true, if_false]
      split <;> simp
    | opened => simp [nextState]
    | halfOpen => simp [nextState]

theorem enter_current (recorded : Breaker) (newState : BreakerState) (now : ℚ) :
    (enter recorded newState now).current = newState := by
  cases newState <;> rfl

theorem recorded_or_entered_current {recorded : Breaker} {state newState : BreakerState} (now : ℚ)
    (kept : recorded.current = state) :
    (if newState = state then recorded else enter recorded newState now).current = newState := by
  by_cases h : newState = state
  · rw [if_pos h, h, kept]
  · rw [if_neg h, enter_current]

/-- The state after an outcome is the one that the script computes. -/
theorem recordOutcomeLua_current (b : Breaker) (clock now : ℚ) (success : Bool) (member : Uuid) :
    (recordOutcomeLua b clock now success member).1.current =
      (recordOutcomeLua b clock now success member).2.state := by
  apply recorded_or_entered_current now
  rfl

theorem recordOutcomeLua_ne_halfOpen (b : Breaker) (clock now : ℚ) (success : Bool)
    (member : Uuid) : (recordOutcomeLua b clock now success member).1.current ≠ .halfOpen := by
  rw [recordOutcomeLua_current]
  exact nextState_ne_halfOpen _ _ _ _ _

/-- Only a granted probe makes a breaker half open. -/
theorem allowRequestLua_halfOpen (b : Breaker) (now : ℚ)
    (after : (allowRequestLua b now).1.current = .halfOpen) :
    b.current = .halfOpen ∨ (allowRequestLua b now).2.1 = .probe := by
  unfold allowRequestLua at after ⊢
  cases h : b.current with
  | closed =>
    simp only [h] at after
    cases after
  | halfOpen => exact Or.inl rfl
  | opened =>
    simp only [h] at after ⊢
    split
    · exact Or.inr rfl
    · rename_i early
      rw [if_neg early] at after
      simp only [h] at after
      cases after

/-- What recording an outcome does to the state and its two times. -/
inductive Records (b b' : Breaker) (now : ℚ) (success : Bool) : Prop where
  | keeps (current : b'.current = b.current) (settled : b.current ≠ .halfOpen)
      (openedAt : b'.openedAt = b.openedAt) (lastProbeAt : b'.lastProbeAt = b.lastProbeAt)
  | opens (failure : success = false) (before : b.current ≠ .opened)
      (current : b'.current = .opened) (openedAt : b'.openedAt = some now)
      (lastProbeAt : b'.lastProbeAt = some now)
  | closes (succeeded : success = true) (before : b.current ≠ .closed)
      (current : b'.current = .closed) (openedAt : b'.openedAt = none)
      (lastProbeAt : b'.lastProbeAt = none)

theorem nextState_opened {state : BreakerState} {success : Bool}
    {consecutive attempts failures : Nat} (other : state ≠ .opened)
    (opens : nextState state success consecutive attempts failures = .opened) :
    success = false := by
  cases success with
  | false => rfl
  | true =>
    cases state with
    | opened => exact absurd rfl other
    | closed => cases opens
    | halfOpen => cases opens

theorem nextState_closed {state : BreakerState} {success : Bool}
    {consecutive attempts failures : Nat} (other : state ≠ .closed)
    (closes : nextState state success consecutive attempts failures = .closed) :
    success = true := by
  cases success with
  | true => rfl
  | false =>
    cases state with
    | closed => exact absurd rfl other
    | opened => cases closes
    | halfOpen => cases closes

theorem recordOutcomeLua_records (b : Breaker) (clock now : ℚ) (success : Bool) (member : Uuid) :
    Records b (recordOutcomeLua b clock now success member).1 now success := by
  have leaves := recordOutcomeLua_ne_halfOpen b clock now success member
  unfold recordOutcomeLua at leaves ⊢
  simp only at leaves ⊢
  generalize newState : nextState b.current success _ _ _ = new at leaves ⊢
  by_cases same : new = b.current
  · subst same
    rw [if_pos rfl] at leaves ⊢
    exact .keeps rfl leaves rfl rfl
  · rw [if_neg same] at leaves ⊢
    cases new with
    | closed => exact .closes (nextState_closed (Ne.symm same) newState) (Ne.symm same) rfl rfl rfl
    | opened => exact .opens (nextState_opened (Ne.symm same) newState) (Ne.symm same) rfl rfl rfl
    | halfOpen => exact absurd rfl leaves

/-- What a request for permission does, and what it is answered. -/
inductive Allows (b b' : Breaker) (now : ℚ) (decision : Decision) : Prop where
  | allowed (closed : b.current = .closed) (same : b' = b) (answer : decision = .allow)
  | denied (broken : b.current ≠ .closed) (same : b' = b) (answer : decision = .deny)
  | probes (opened : b.current = .opened)
      (due : halfOpenProbeIntervalSeconds ≤ now - b.lastProbeAt.getD 0)
      (current : b'.current = .halfOpen) (openedAt : b'.openedAt = b.openedAt)
      (lastProbeAt : b'.lastProbeAt = some now) (answer : decision = .probe)

theorem allowRequestLua_allows (b : Breaker) (now : ℚ) :
    Allows b (allowRequestLua b now).1 now (allowRequestLua b now).2.1 := by
  unfold allowRequestLua
  cases before : b.current with
  | closed => exact .allowed before rfl rfl
  | halfOpen => exact .denied (by rw [before]; decide) rfl rfl
  | opened =>
    simp only
    by_cases due : halfOpenProbeIntervalSeconds ≤ now - b.lastProbeAt.getD 0
    · rw [if_pos due]
      exact .probes before due rfl rfl rfl rfl
    · rw [if_neg due]
      exact .denied (by rw [before]; decide) rfl rfl

/-- Whoever asks while a probe is in flight waits. -/
theorem allowRequestLua_denies {b : Breaker} (halfOpen : b.current = .halfOpen) (now : ℚ) :
    (allowRequestLua b now).2.1 = .deny := by
  cases allowRequestLua_allows b now with
  | allowed closed =>
    rw [halfOpen] at closed
    cases closed
  | denied _ _ answer => exact answer
  | probes opened =>
    rw [halfOpen] at opened
    cases opened

end Relay.CircuitBreaker
