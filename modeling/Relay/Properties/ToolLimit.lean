import Relay.Agent.Calls
import Relay.Properties.AgentFrame

/-!
# How many tools does a loop call?

The limit is tested before a reply is asked for, and then every use of a tool in the
reply is dispatched. So it holds exactly when no reply asks for more than is left.
-/

namespace Relay.Agent

open Effects

/-- A reply that a loop acts on: how many uses were counted before, and those it holds. -/
structure Turn where
  calls : Nat
  uses : List Block
  start : Progress

section Counts

variable (env : Surroundings) (subject : Subject)

/-- How many of the uses are dispatched: the one that raises is the last. -/
def dispatches : List Block → Progress → Nat
  | [], _ => 0
  | block :: rest, p =>
    match outcome (serve env subject block) p with
    | .error _ => 1
    | .ok result =>
      let call := Call.of block p result
      let q := final (serve env subject block) p
      dispatches rest { q with state := call.note q.state } + 1

/-- The replies that the rounds of a loop act on. -/
def turns (maxCalls : Nat) : Nat → Nat → Progress → List Turn
  | 0, _, _ => []
  | rounds + 1, calls, p =>
    if calls < maxCalls ∧ overBudget env p.state = false then
      match outcome (callModel env) p with
      | .error _ => []
      | .ok response =>
        let q := final (callModel env) p
        match toolUses response with
        | [] => []
        | uses => ⟨calls, uses, q⟩ ::
          match outcome (useTools env subject uses) q with
          | .error _ => []
          | .ok _ =>
            turns maxCalls rounds (calls + uses.length) (final (useTools env subject uses) q)
    else []

/-- The tools that one run of the loop dispatches. -/
def dispatched (maxCalls : Nat) (p : Progress) : Nat :=
  ((turns env subject maxCalls maxCalls 0 p).map
    (fun t => dispatches env subject t.uses t.start)).sum

/-- The reply asks for no more tools than are left. -/
def Turn.Fits (maxCalls : Nat) (t : Turn) : Prop := t.uses.length ≤ maxCalls - t.calls

/-- What it asks for within the limit ends the run by an exception that no handler catches. -/
def Turn.Cut (maxCalls : Nat) (t : Turn) : Prop :=
  ∃ e, outcome (useTools env subject (t.uses.take (maxCalls - t.calls))) t.start = .error e

/-- These are the calls that the loop records, and one more where it ends by an exception. -/
theorem dispatches_eq (uses : List Block) (p : Progress) :
    dispatches env subject uses p = (callsOf env subject uses p).length +
      match outcome (useTools env subject uses) p with
      | .error _ => 1
      | .ok _ => 0 := by
  induction uses generalizing p with
  | nil => rfl
  | cons block rest ih =>
    rw [useTools_cons, outcome_bind, callsOf, dispatches]
    cases outcome (serve env subject block) p with
    | error e => rfl
    | ok result =>
      simp only [ih, List.length_cons]
      exact Nat.add_right_comm _ _ _

theorem turns_calls (maxCalls rounds calls : Nat) (p : Progress) :
    (turns env subject maxCalls rounds calls p).flatMap
      (fun t => callsOf env subject t.uses t.start) =
        loopCalls env subject maxCalls rounds calls p := by
  induction rounds generalizing calls p with
  | zero => rfl
  | succ rounds ih =>
    rw [turns, loopCalls]
    split
    · cases outcome (callModel env) p with
      | error e => rfl
      | ok response =>
        simp only
        cases toolUses response with
        | nil => rfl
        | cons block rest =>
          simp only [List.flatMap_cons]
          congr 1
          cases outcome (useTools env subject (block :: rest)) (final (callModel env) p) with
          | error e => rfl
          | ok _ => exact ih _ _
    · rfl

variable {env subject}

theorem dispatches_of_ok {uses : List Block} {p : Progress} {done : PUnit}
    (returned : outcome (useTools env subject uses) p = .ok done) :
    dispatches env subject uses p = uses.length := by
  induction uses generalizing p with
  | nil => rfl
  | cons block rest ih =>
    rw [useTools_cons, outcome_bind] at returned
    rw [dispatches]
    cases served : outcome (serve env subject block) p with
    | error e =>
      rw [served] at returned
      cases returned
    | ok result =>
      rw [served] at returned
      exact congrArg (· + 1) (ih returned)

/-- No more than so many are dispatched when there are no more, or one of these raises. -/
theorem dispatches_le {uses : List Block} {n : Nat} {p : Progress} :
    dispatches env subject uses p ≤ n ↔ uses.length ≤ n ∨
      ∃ e, outcome (useTools env subject (uses.take n)) p = .error e := by
  induction uses generalizing n p with
  | nil => simp [dispatches]
  | cons block rest ih =>
    cases n with
    | zero =>
      constructor
      · intro none
        have some : 0 < dispatches env subject (block :: rest) p := by
          rw [dispatches]
          split
          · exact Nat.one_pos
          · exact Nat.succ_pos _
        exact absurd none (Nat.not_le.mpr some)
      · rintro (none | ⟨e, raised⟩)
        · exact absurd none (Nat.not_succ_le_zero _)
        · cases raised
    | succ n =>
      rw [List.take_succ_cons, useTools_cons, outcome_bind, dispatches, List.length_cons]
      cases outcome (serve env subject block) p with
      | error e =>
        exact ⟨fun _ => Or.inr ⟨e, rfl⟩, fun _ => Nat.succ_le_succ (Nat.zero_le n)⟩
      | ok result =>
        simp only [Nat.add_le_add_iff_right]
        exact ih

/-- The rounds from a count within the limit on. -/
theorem turns_limited {maxCalls rounds calls : Nat} {p : Progress} (within : calls ≤ maxCalls) :
    calls + ((turns env subject maxCalls rounds calls p).map
        (fun t => dispatches env subject t.uses t.start)).sum ≤ maxCalls ↔
      ∀ t ∈ turns env subject maxCalls rounds calls p,
        t.Fits maxCalls ∨ t.Cut env subject maxCalls := by
  induction rounds generalizing calls p with
  | zero => simp [turns, within]
  | succ rounds ih =>
    rw [turns]
    split
    swap
    · simp [within]
    cases outcome (callModel env) p with
    | error e => simp [within]
    | ok response =>
      simp only
      cases toolUses response with
      | nil => simp [within]
      | cons block rest =>
        simp only
        generalize block :: rest = uses
        generalize final (callModel env) p = q
        have own : calls + dispatches env subject uses q ≤ maxCalls ↔
            Turn.Fits maxCalls ⟨calls, uses, q⟩ ∨
              Turn.Cut env subject maxCalls ⟨calls, uses, q⟩ := by
          rw [← Nat.le_sub_iff_add_le' within]
          exact dispatches_le
        cases returned : outcome (useTools env subject uses) q with
        | error e =>
          simp only [List.map_cons, List.map_nil, List.sum_cons, List.sum_nil, Nat.add_zero,
            List.forall_mem_singleton]
          exact own
        | ok done =>
          have all : dispatches env subject uses q = uses.length := dispatches_of_ok returned
          simp only [List.map_cons, List.sum_cons, List.forall_mem_cons]
          rw [← own]
          by_cases room : calls + uses.length ≤ maxCalls
          · have later := ih (p := final (useTools env subject uses) q) room
            rw [← later, all]
            constructor
            · exact fun total => ⟨room, by omega⟩
            · exact fun both => by omega
          · rw [all]
            constructor
            · exact fun total => absurd (by omega) room
            · exact fun both => absurd both.1 room

end Counts

/-- A loop keeps to its limit exactly when every reply that it acts on asks for no more tools
than are left, or a tool within the limit ends the run. -/
theorem tool_limit (env : Surroundings) (subject : Subject) (maxCalls : Nat) (p : Progress) :
    dispatched env subject maxCalls p ≤ maxCalls ↔
      ∀ t ∈ turns env subject maxCalls maxCalls 0 p,
        t.Fits maxCalls ∨ t.Cut env subject maxCalls := by
  have limited : 0 + dispatched env subject maxCalls p ≤ maxCalls ↔ _ :=
    turns_limited (Nat.zero_le maxCalls)
  rw [Nat.zero_add] at limited
  exact limited

/-- A model that asks for seven tools at once. -/
def flooding : Surroundings :=
  { pausing with reply := fun _ => .ok ⟨List.replicate 7 (uses "drop_tables" []), 10, 10⟩ }

/-- All seven are dispatched, by the loop that may call six and by the one that may call two. -/
theorem tool_limit_exceeded :
    ¬ dispatched flooding manual maxInvestigateToolCalls { store := brokenEndpoint } ≤
        maxInvestigateToolCalls ∧
      ¬ dispatched flooding manual maxVerifyToolCalls { store := brokenEndpoint } ≤
        maxVerifyToolCalls := by
  decide +kernel

end Relay.Agent
