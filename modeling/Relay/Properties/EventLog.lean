import Relay.Delivery.BreakerHistory
import Relay.Lib.Transition

/-!
# What a subscriber learns of a breaker

The outcome script publishes its transitions, the permission script publishes
nothing. Beside a breaker and the messages of its calls an observer notes every
change of state, and how often a caller found the probe of an open breaker due.
-/

namespace Relay.CircuitBreaker

structure Change where
  fromState : BreakerState
  toState : BreakerState
  deriving DecidableEq

/-- The change that a message on the channel announces. -/
def BreakerEvent.change : BreakerEvent → Option Change
  | .transition _ fromState toState _ _ => some ⟨fromState, toState⟩
  | .consecutiveFailures .. => none

/-- The changes lead from one state to another, each from where the last one led. -/
def Chained : BreakerState → List Change → BreakerState → Prop
  | s, [], t => s = t
  | s, c :: rest, t => c.fromState = s ∧ Chained c.toState rest t

instance decidableChained : ∀ (s : BreakerState) (changes : List Change) (t : BreakerState),
    Decidable (Chained s changes t)
  | s, [], t => inferInstanceAs (Decidable (s = t))
  | s, c :: rest, t =>
    have := decidableChained c.toState rest t
    inferInstanceAs (Decidable (c.fromState = s ∧ Chained c.toState rest t))

/-- Going from one state to another, if they differ. -/
def changed (s t : BreakerState) : List Change := if s = t then [] else [⟨s, t⟩]

theorem Chained.append {first s t : BreakerState} {changes more : List Change}
    (chained : Chained first changes s) (next : Chained s more t) :
    Chained first (changes ++ more) t := by
  induction changes generalizing first with
  | nil =>
    cases chained
    exact next
  | cons c rest ih => exact ⟨chained.1, ih chained.2⟩

theorem chained_changed (s t : BreakerState) : Chained s (changed s t) t := by
  unfold changed
  split
  · assumption
  · exact ⟨rfl, rfl⟩

/-- The breaker is open and its last probe lies the probe interval back. -/
def ProbeDue (b : Breaker) (now : ℚ) : Prop :=
  b.current = .opened ∧ halfOpenProbeIntervalSeconds ≤ now - b.lastProbeAt.getD 0

instance (b : Breaker) (now : ℚ) : Decidable (ProbeDue b now) :=
  inferInstanceAs (Decidable (_ ∧ _))

structure Logged where
  breaker : Breaker
  /-- The messages on `relay:breaker-events`, the latest last. -/
  published : List BreakerEvent
  /-- The changes of state, the latest last. -/
  changes : List Change
  /-- The calls so far that found a probe due. -/
  probesDue : Nat

namespace Logged

open Transition

def starting (b : Breaker) : Logged := ⟨b, [], [], 0⟩

def step (endpointId : Uuid) : Call → Logged → Option Logged
  | .allowRequest now, x =>
    let after := (allowRequestLua x.breaker now).1
    some
      { breaker := after
        published := x.published
        changes := x.changes ++ changed x.breaker.current after.current
        probesDue := if ProbeDue x.breaker now then x.probesDue + 1 else x.probesDue }
  | .recordOutcome clock now success member, x =>
    let answer := recordOutcomeLua x.breaker clock now success member
    some
      { breaker := answer.1
        published := x.published ++
          Watched.messages endpointId x.breaker.current success answer.2 now
        changes := x.changes ++ changed x.breaker.current answer.1.current
        probesDue := x.probesDue }
  | .reset, _ => none

/-- The transitions that were published, in order. -/
def transitions (x : Logged) : List Change := x.published.filterMap BreakerEvent.change

/-- The published transitions are the changes of state, and they lead from the
first state to the present one. -/
structure Complete (x : Logged) (first : BreakerState) : Prop where
  exact : x.transitions = x.changes
  chained : Chained first x.transitions x.breaker.current

instance (x : Logged) (first : BreakerState) : Decidable (x.Complete first) :=
  decidable_of_iff (x.transitions = x.changes ∧ Chained first x.transitions x.breaker.current)
    ⟨fun ⟨exact, chained⟩ => ⟨exact, chained⟩,
      fun ⟨exact, chained⟩ => ⟨exact, chained⟩⟩

variable {x y : Logged} {c : Call} {endpointId : Uuid} {first : BreakerState}

/-- The second message of `record_outcome` announces no change. -/
theorem messages_changes (endpointId : Uuid) (before : BreakerState) (success : Bool) (o : Outcome)
    (now : ℚ) :
    (Watched.messages endpointId before success o now).filterMap BreakerEvent.change =
      if o.transitioned then [⟨before, o.state⟩] else [] := by
  have quiet : (if triggersDiagnosis success o then
      [BreakerEvent.consecutiveFailures endpointId o.consecutive now] else []).filterMap
        BreakerEvent.change = [] := by
    split <;> rfl
  rw [Watched.messages, List.filterMap_append, quiet, List.append_nil, transitionEvent]
  split <;> rfl

/-- The outcome script announces the change that it makes, and no other. -/
theorem recordOutcome_announces (endpointId : Uuid) (b : Breaker) (clock now : ℚ) (success : Bool)
    (member : Uuid) :
    (Watched.messages endpointId b.current success
        (recordOutcomeLua b clock now success member).2 now).filterMap BreakerEvent.change =
      changed b.current (recordOutcomeLua b clock now success member).1.current := by
  rw [messages_changes, recordOutcomeLua_current]
  unfold changed
  by_cases same : b.current = (recordOutcomeLua b clock now success member).2.state
  · have still : (recordOutcomeLua b clock now success member).2.transitioned = false :=
      decide_eq_false (fun differs => differs same.symm)
    rw [if_pos same, still]
    rfl
  · have moved : (recordOutcomeLua b clock now success member).2.transitioned = true :=
      decide_eq_true (fun back => same back.symm)
    rw [if_neg same, if_pos moved]

/-- A request for permission changes the state exactly when a probe is due. -/
theorem allowRequest_changed (b : Breaker) (now : ℚ) :
    (changed b.current (allowRequestLua b now).1.current).length =
      if ProbeDue b now then 1 else 0 := by
  by_cases due : ProbeDue b now
  · have halfOpen : (allowRequestLua b now).1.current = .halfOpen := by
      unfold allowRequestLua
      rw [due.1]
      simp only [if_pos due.2]
      rfl
    rw [if_pos due, halfOpen, due.1]
    rfl
  · have same : (allowRequestLua b now).1 = b := by
      cases allowRequestLua_allows b now with
      | allowed _ same => exact same
      | denied _ same => exact same
      | probes opened passed => exact absurd ⟨opened, passed⟩ due
    rw [if_neg due, same, changed, if_pos rfl]
    rfl

/-- The changes form a chain, the log leaves out those of granted probes only. -/
structure Kept (x : Logged) (first : BreakerState) : Prop where
  chained : Chained first x.changes x.breaker.current
  announced : x.transitions.Sublist x.changes
  missing : x.changes.length = x.transitions.length + x.probesDue

theorem kept_starting (b : Breaker) : (starting b).Kept b.current where
  chained := rfl
  announced := .refl _
  missing := rfl

theorem Kept.step (kept : x.Kept first) (next : Logged.step endpointId c x = some y) :
    y.Kept first := by
  cases c with
  | allowRequest now =>
    obtain rfl := Option.some.inj next
    have chained :=
      kept.chained.append (chained_changed _ (allowRequestLua x.breaker now).1.current)
    refine ⟨chained, kept.announced.trans (List.sublist_append_left _ _), ?_⟩
    have missing := kept.missing
    have length := allowRequest_changed x.breaker now
    simp only [transitions, List.length_append] at missing ⊢
    by_cases due : ProbeDue x.breaker now
    · rw [if_pos due] at length ⊢
      omega
    · rw [if_neg due] at length ⊢
      omega
  | recordOutcome clock now success member =>
    obtain rfl := Option.some.inj next
    have announces := recordOutcome_announces endpointId x.breaker clock now success member
    refine ⟨kept.chained.append (chained_changed _ _), ?_, ?_⟩
    · simp only [transitions, List.filterMap_append, announces]
      exact kept.announced.append (.refl _)
    · have missing := kept.missing
      simp only [transitions, List.filterMap_append, announces, List.length_append] at missing ⊢
      omega
  | reset => cases next

/-- The log is complete as long as no call found a probe due, and never again
after one did. -/
theorem log_complete {b : Breaker} (closed : b.current = .closed)
    (run : Run (step endpointId) (fun _ _ => True) (starting b) x) :
    x.Complete .closed ↔ x.probesDue = 0 := by
  have kept : x.Kept b.current := run.invariant (I := fun x => x.Kept b.current) (kept_starting b)
    (fun kept _ next => kept.step next)
  rw [closed] at kept
  have missing := kept.missing
  constructor
  · intro complete
    rw [complete.exact] at missing
    omega
  · intro none
    have exact : x.transitions = x.changes := kept.announced.eq_of_length (by omega)
    exact ⟨exact, exact ▸ kept.chained⟩

/-- Ten failures in a row: one transition, announced. -/
theorem log_complete_opened : ∃ x : Logged,
    Run (step 1) (fun _ _ => True) (starting {}) x ∧ x.changes = [⟨.closed, .opened⟩] ∧
      (x.Complete .closed ↔ x.probesDue = 0) ∧ x.probesDue = 0 := by
  have evaluates : (exec (step 1) (fun _ _ => true) Observed.tripped (starting {})).elim false
      (fun x => decide (x.changes = [⟨.closed, .opened⟩] ∧ x.probesDue = 0)) = true := by
    decide +kernel
  obtain ⟨x, executed, passes⟩ := reached evaluates
  obtain ⟨changes, none⟩ := of_decide_eq_true passes
  have run := run_of_exec (fun _ _ _ => trivial) executed
  exact ⟨x, run, changes, log_complete rfl run, none⟩

/-- A probe eleven minutes later half-opens the breaker in silence; its success
is then announced as a change from a state that no message led to. -/
theorem log_complete_probe : ∃ x : Logged,
    Run (step 1) (fun _ _ => True) (starting {}) x ∧
      x.transitions = [⟨.closed, .opened⟩, ⟨.halfOpen, .closed⟩] ∧
      x.changes = [⟨.closed, .opened⟩, ⟨.opened, .halfOpen⟩, ⟨.halfOpen, .closed⟩] ∧
      ¬ Chained .closed x.transitions x.breaker.current ∧ ¬ x.Complete .closed := by
  have evaluates : (exec (step 1) (fun _ _ => true)
      (Observed.tripped ++ [.allowRequest 700, .recordOutcome 701 701 true 50])
      (starting {})).elim false (fun x => decide
        (x.transitions = [⟨.closed, .opened⟩, ⟨.halfOpen, .closed⟩] ∧
          x.changes = [⟨.closed, .opened⟩, ⟨.opened, .halfOpen⟩,
            ⟨.halfOpen, .closed⟩] ∧
          ¬ Chained .closed x.transitions x.breaker.current ∧ ¬ x.Complete .closed)) =
            true := by
    decide +kernel
  obtain ⟨x, executed, passes⟩ := reached evaluates
  exact ⟨x, run_of_exec (fun _ _ _ => trivial) executed, of_decide_eq_true passes⟩

end Logged

end Relay.CircuitBreaker
