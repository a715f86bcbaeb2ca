import Relay.Delivery.CircuitBreaker
import Relay.Lib.Transition

/-!
# The edges of the breaker

The script that records an outcome is not told which attempt it belongs to.
Attempts are numbered here in the order of their admission, so that it can be
said whose outcome causes a change: the probe's, or that of an attempt that was
let through before the breaker opened and reports late.
-/

namespace Relay.CircuitBreaker

/-- The breaker of an endpoint and the attempts that it has let through. -/
structure Admissions where
  breaker : Breaker
  admitted : Nat
  /-- Attempts whose outcome is not recorded yet. -/
  outstanding : List Nat
  /-- The attempt last admitted as a probe. -/
  probe : Option Nat

namespace Admissions

open Transition

inductive Label where
  | allowRequest (now : ℚ)
  | recordOutcome (attempt : Nat) (clock now : ℚ) (success : Bool) (member : Uuid)

def initial : Admissions := ⟨{}, 0, [], none⟩

def step : Label → Admissions → Option Admissions
  | .allowRequest now, x =>
    let answer := allowRequestLua x.breaker now
    match answer.2.1 with
    | .deny => some { x with breaker := answer.1 }
    | .allow =>
      some { x with
        breaker := answer.1
        admitted := x.admitted + 1
        outstanding := x.outstanding ++ [x.admitted] }
    | .probe =>
      some
        { breaker := answer.1
          admitted := x.admitted + 1
          outstanding := x.outstanding ++ [x.admitted]
          probe := some x.admitted }
  | .recordOutcome attempt clock now success member, x =>
    if attempt ∈ x.outstanding then
      some { x with
        breaker := (recordOutcomeLua x.breaker clock now success member).1
        outstanding := x.outstanding.erase attempt }
    else none

variable {x y : Admissions} {l : Label}

def Label.Records (attempt : Nat) (success : Bool) : Label → Prop
  | .recordOutcome attempt' _ _ success' _ => attempt' = attempt ∧ success' = success
  | .allowRequest _ => False

/-- A change of state, its cause, and whose outcome it is. -/
inductive Changes (x y : Admissions) (l : Label) : Prop
  | opens (before : x.breaker.current = .closed) (after : y.breaker.current = .opened)
      (attempt : Nat) (outstanding : attempt ∈ x.outstanding) (cause : l.Records attempt false)
  | halfOpens (before : x.breaker.current = .opened) (after : y.breaker.current = .halfOpen)
      (now : ℚ) (cause : l = .allowRequest now)
      (probe : (allowRequestLua x.breaker now).2.1 = .probe)
  | reopens (before : x.breaker.current = .halfOpen) (after : y.breaker.current = .opened)
      (attempt probe : Nat) (outstanding : attempt ∈ x.outstanding)
      (cause : l.Records attempt false) (latest : x.probe = some probe) (le : attempt ≤ probe)
  | recovers (before : x.breaker.current = .halfOpen) (after : y.breaker.current = .closed)
      (attempt probe : Nat) (outstanding : attempt ∈ x.outstanding)
      (cause : l.Records attempt true) (latest : x.probe = some probe) (le : attempt ≤ probe)
  | closes (before : x.breaker.current = .opened) (after : y.breaker.current = .closed)
      (attempt : Nat) (outstanding : attempt ∈ x.outstanding) (cause : l.Records attempt true)

/-- While a breaker is half open, its probe is the attempt admitted last. -/
structure Numbered (x : Admissions) : Prop where
  below : ∀ a ∈ x.outstanding, a < x.admitted
  last : x.breaker.current = .halfOpen → ∃ p, x.probe = some p ∧ x.admitted = p + 1

theorem numbered_initial : Numbered initial where
  below := fun _ h => absurd h List.not_mem_nil
  last := fun h => by cases h

theorem below_admitted (inv : Numbered x) :
    ∀ a ∈ x.outstanding ++ [x.admitted], a < x.admitted + 1 := by
  intro a listed
  rcases List.mem_append.mp listed with old | new
  · have := inv.below a old
    omega
  · rw [List.mem_singleton.mp new]
    omega

theorem Numbered.step (inv : Numbered x) (next : step l x = some y) : Numbered y := by
  cases l with
  | allowRequest now =>
    have allows := allowRequestLua_allows x.breaker now
    simp only [Admissions.step] at next
    generalize allowRequestLua x.breaker now = a at allows next
    cases allows with
    | allowed closed same decision =>
      rw [decision] at next
      cases next
      refine ⟨below_admitted inv, fun halfOpen => ?_⟩
      rw [same, closed] at halfOpen
      cases halfOpen
    | denied _ same decision =>
      rw [decision] at next
      cases next
      exact ⟨inv.below, fun halfOpen => inv.last (same ▸ halfOpen)⟩
    | probes _ _ _ _ _ decision =>
      rw [decision] at next
      cases next
      exact ⟨below_admitted inv, fun _ => ⟨x.admitted, rfl, rfl⟩⟩
  | recordOutcome attempt clock now success member =>
    simp only [Admissions.step] at next
    split at next
    · cases next
      refine ⟨fun a listed => inv.below a (List.mem_of_mem_erase listed), fun halfOpen => ?_⟩
      exact absurd halfOpen (recordOutcomeLua_ne_halfOpen _ _ _ _ _)
    · cases next

theorem Numbered.changes (inv : Numbered x) (next : Admissions.step l x = some y)
    (changed : y.breaker.current ≠ x.breaker.current) : Changes x y l := by
  cases l with
  | allowRequest now =>
    have allows := allowRequestLua_allows x.breaker now
    simp only [Admissions.step] at next
    generalize answer : allowRequestLua x.breaker now = a at allows next
    cases allows with
    | allowed _ same decision | denied _ same decision =>
      rw [decision] at next
      cases next
      exact absurd (congrArg Breaker.current same) changed
    | probes opened _ current _ _ decision =>
      rw [decision] at next
      cases next
      exact .halfOpens opened current now rfl (by rw [answer, decision])
  | recordOutcome attempt clock now success member =>
    simp only [Admissions.step] at next
    split at next
    · rename_i outstanding
      cases next
      -- in half_open, whoever reports was admitted no later than the probe
      have latest : x.breaker.current = .halfOpen →
          ∃ p, x.probe = some p ∧ attempt ≤ p := by
        intro halfOpen
        obtain ⟨p, probe, count⟩ := inv.last halfOpen
        have := inv.below attempt outstanding
        exact ⟨p, probe, by omega⟩
      cases recordOutcomeLua_records x.breaker clock now success member with
      | keeps current => exact absurd current changed
      | opens failure before after =>
        subst failure
        cases state : x.breaker.current with
        | opened => exact absurd state before
        | closed => exact .opens state after attempt outstanding ⟨rfl, rfl⟩
        | halfOpen =>
          obtain ⟨p, probe, le⟩ := latest state
          exact .reopens state after attempt p outstanding ⟨rfl, rfl⟩ probe le
      | closes succeeded before after =>
        subst succeeded
        cases state : x.breaker.current with
        | closed => exact absurd state before
        | opened => exact .closes state after attempt outstanding ⟨rfl, rfl⟩
        | halfOpen =>
          obtain ⟨p, probe, le⟩ := latest state
          exact .recovers state after attempt p outstanding ⟨rfl, rfl⟩ probe le
    · cases next

/-- Every change along any run, with its cause. -/
theorem breaker_edges (run : Run step (fun _ _ => True) initial x) (next : step l x = some y)
    (changed : y.breaker.current ≠ x.breaker.current) : Changes x y l := by
  have inv : Numbered x := run.invariant numbered_initial (fun inv _ next => inv.step next)
  exact inv.changes next changed

/-! A probe that recovers, and attempts that report late -/

/-- Twelve attempts let through, of which the first ten fail. -/
def tripped : List Label :=
  List.replicate 12 (.allowRequest 0) ++
    (List.range 10).map (fun (i : Nat) => .recordOutcome i i i false (BitVec.ofNat 128 i))

theorem breaker_edges_probe : ∃ x y l, Run step (fun _ _ => True) initial x ∧
    step l x = some y ∧ y.breaker.current ≠ x.breaker.current ∧ Changes x y l := by
  have evaluates : (exec step (fun _ _ => true) (tripped ++ [.allowRequest 700])
      initial).elim false (fun x =>
        (step (.recordOutcome 12 701 701 true 50) x).elim false (fun y =>
          decide (y.breaker.current ≠ x.breaker.current))) = true := by
    decide +kernel
  obtain ⟨x, executed, later⟩ := reached evaluates
  obtain ⟨y, next, changed⟩ := reached later
  have run := run_of_exec (fun _ _ _ => trivial) executed
  exact ⟨x, y, _, run, next, of_decide_eq_true changed,
    breaker_edges run next (of_decide_eq_true changed)⟩

/-- An attempt let through at the beginning succeeds while the breaker is open,
and one succeeds while it is half open: the first closes it directly, the second
ends the outage in place of the probe. -/
theorem breaker_edges_late :
    (∃ x y, Run step (fun _ _ => True) initial x ∧
      step (.recordOutcome 10 20 20 true 50) x = some y ∧
        x.breaker.current = .opened ∧ y.breaker.current = .closed) ∧
    ∃ x y, Run step (fun _ _ => True) initial x ∧
      step (.recordOutcome 11 701 701 true 51) x = some y ∧
        x.breaker.current = .halfOpen ∧ x.probe = some 12 ∧ y.breaker.current = .closed := by
  have straight : (exec step (fun _ _ => true) tripped initial).elim false (fun x =>
      (step (.recordOutcome 10 20 20 true 50) x).elim false (fun y =>
        decide (x.breaker.current = .opened ∧ y.breaker.current = .closed))) = true := by
    decide +kernel
  have instead : (exec step (fun _ _ => true) (tripped ++ [.allowRequest 700])
      initial).elim false (fun x =>
        (step (.recordOutcome 11 701 701 true 51) x).elim false (fun y =>
          decide (x.breaker.current = .halfOpen ∧ x.probe = some 12 ∧
            y.breaker.current = .closed))) = true := by
    decide +kernel
  obtain ⟨x, executed, later⟩ := reached straight
  obtain ⟨y, next, edge⟩ := reached later
  obtain ⟨x', executed', later'⟩ := reached instead
  obtain ⟨y', next', edge'⟩ := reached later'
  exact ⟨⟨x, y, run_of_exec (fun _ _ _ => trivial) executed, next, of_decide_eq_true edge⟩,
    ⟨x', y', run_of_exec (fun _ _ _ => trivial) executed', next', of_decide_eq_true edge'⟩⟩

end Admissions

end Relay.CircuitBreaker
