import Relay.Api.Diagnoses
import Relay.Lib.Transition

/-!
# Concurrent decisions on one action

Any number of approvals and rejections of one action over one store, each taking
one await at a time in any order. No row is locked between the check and the commit.
-/

namespace Relay.Api

inductive Decider where
  | approve (r : Approve)
  | reject (r : Reject)

namespace Decider

def tenantId : Decider → Uuid
  | .approve r => r.tenantId
  | .reject r => r.tenantId

def step (streamShards : Nat) (clock : ℚ) (s : Store) : Decider → Option (Store × Decider)
  | .approve r => (r.step streamShards clock s).map (fun p => (p.1, .approve p.2))
  | .reject r => (r.step clock s).map (fun p => (p.1, .reject p.2))

def answer : Decider → Option (Except ApiError AgentAction)
  | .approve ⟨_, _, .done result⟩ => some result
  | .reject ⟨_, _, .done result⟩ => some result
  | _ => none

/-- The action was read as pending and the commit is still to come. -/
def deciding : Decider → Bool
  | .approve ⟨_, _, .loadEndpoint _⟩ => true
  | .approve ⟨_, _, .selectDead _ _⟩ => true
  | .approve ⟨_, _, .commitPause _ _ _⟩ => true
  | .approve ⟨_, _, .commitReplay _ _ _ _⟩ => true
  | .reject ⟨_, _, .commit _ _⟩ => true
  | _ => false

/-- The next await selects the action and finds it pending. -/
def readsPending (s : Store) : Decider → Bool
  | .approve ⟨_, actionId, .loadAction owned⟩ => selects s actionId owned
  | .reject ⟨_, actionId, .loadAction owned⟩ => selects s actionId owned
  | _ => false
where
  selects (s : Store) (actionId : Uuid) (owned : List Uuid) : Bool :=
    ((s.db.action actionId).filter (fun a => a.endpointId ∈ owned)).any
      (fun a => a.status = .pending)

end Decider

/-- The requests so far, in the order in which they arrived. -/
structure Deciding where
  clock : ℚ
  store : Store
  requests : List Decider

namespace Deciding

inductive Label where
  | tick (time : ℚ)
  | approve (tenantId : Uuid)
  | reject (tenantId : Uuid)
  | serve (r : Nat)

def start (clock : ℚ) (s : Store) : Deciding := ⟨clock, s, []⟩

def arrive (x : Deciding) (q : Decider) : Deciding := { x with requests := x.requests ++ [q] }

def step (streamShards : Nat) (actionId : Uuid) : Label → Deciding → Option Deciding
  | .tick time, x => if x.clock ≤ time then some { x with clock := time } else none
  | .approve tenantId, x => some (x.arrive (.approve (Approve.start tenantId actionId)))
  | .reject tenantId, x => some (x.arrive (.reject (Reject.start tenantId actionId)))
  | .serve r, x =>
    match x.requests[r]? with
    | none => none
    | some q =>
      (q.step streamShards x.clock x.store).map
        (fun p => { x with store := p.1, requests := x.requests.set r p.2 })

/-- Every request that arrived has been answered. -/
def Quiet (x : Deciding) : Prop := ∀ q ∈ x.requests, q.answer.isSome = true

instance (x : Deciding) : Decidable x.Quiet := inferInstanceAs (Decidable (∀ q ∈ _, _))

/-- No request reads the action as pending while another that did has not committed. -/
def OneDecides (x : Deciding) (l : Label) : Prop :=
  match l with
  | .serve r => ∀ q ∈ x.requests[r]?, q.readsPending x.store = true →
      ∀ q' ∈ x.requests, q'.deciding = false
  | _ => True

instance (x : Deciding) (l : Label) : Decidable (x.OneDecides l) := by
  unfold OneDecides
  cases l <;> infer_instance

end Deciding

end Relay.Api
