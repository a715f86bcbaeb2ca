import Relay.Delivery.Worker
import Relay.Lib.AutoClaim
import Relay.Lib.Transition

/-!
# Reclaiming

`reclaim_stale` with one step for each awaited call and one for the test at the
end of a batch. What a call finds is the course of the pass: the clock, whether
`handle_message` acknowledges the entry it is passed or leaves it pending, and
what producers append meanwhile. The calls do not raise, and no other consumer
of the group acts.
-/

namespace Relay.Reclaim

open Worker Enqueue

structure Course where
  clock : Nat → ℚ
  forward : Monotone clock
  acks : Nat → Bool
  added : Nat → List Fields

/-- A cursor `0-0` is `none`. -/
inductive Pc where
  | claim (cursor : Option Nat)
  | handle (cursor : Option Nat) (messages todo : List (Nat × Fields))
  | returned

/-- The calls so far are counted, and those of `handle_message` recorded. -/
structure Pass where
  log : StreamLog Fields
  pc : Pc := .claim none
  reclaimed : Nat := 0
  awaited : Nat := 0
  handled : List (Nat × Fields) := []

def minIdle : ℚ := reclaimMinIdleMs / 1000

def start (log : StreamLog Fields) : Pass := { log }

/-- XAUTOCLAIM of the pass, from its cursor on. -/
def claim (course : Course) (consumer : Nat) (p : Pass) (cursor : Option Nat) :
    AutoClaimReply Fields :=
  p.log.xautoclaim consumer minIdle (course.clock p.awaited) (cursor.getD 0) reclaimCount

theorem claim_claims (course : Course) (consumer : Nat) (p : Pass) (cursor : Option Nat) :
    p.log.AutoClaims consumer minIdle (course.clock p.awaited) (cursor.getD 0) reclaimCount
      (claim course consumer p cursor) :=
  p.log.xautoclaim_claims _ _ _ _ _

/-- The stream after one entry was handled. -/
def handleMessage (course : Course) (p : Pass) (messageId : Nat) : StreamLog Fields :=
  let log := (course.added p.awaited).foldl StreamLog.xadd p.log
  if course.acks p.awaited then log.xack messageId else log

def next (course : Course) (consumer : Nat) (p : Pass) : Option Pass :=
  match p.pc with
  | .claim cursor =>
    let reply := claim course consumer p cursor
    some { p with
      log := reply.log
      pc := .handle reply.cursor reply.messages reply.messages
      awaited := p.awaited + 1 }
  | .handle cursor messages (message :: todo) =>
    some { p with
      log := handleMessage course p message.1
      pc := .handle cursor messages todo
      reclaimed := p.reclaimed + 1
      awaited := p.awaited + 1
      handled := p.handled ++ [message] }
  | .handle cursor messages [] =>
    some { p with pc := if cursor = none ∨ messages = [] then .returned else .claim cursor }
  | .returned => none

variable {course : Course} {consumer : Nat} {p q : Pass} {log : StreamLog Fields}

theorem next_claim {cursor : Option Nat} (at_call : p.pc = .claim cursor) :
    ∃ q, next course consumer p = some q ∧
      q.pc = .handle (claim course consumer p cursor).cursor
        (claim course consumer p cursor).messages (claim course consumer p cursor).messages ∧
      q.log = (claim course consumer p cursor).log ∧ q.handled = p.handled := by
  simp only [next, at_call]
  exact ⟨_, rfl, rfl, rfl, rfl⟩

theorem next_handle {cursor : Option Nat} {messages todo : List (Nat × Fields)}
    {message : Nat × Fields} (at_call : p.pc = .handle cursor messages (message :: todo)) :
    ∃ q, next course consumer p = some q ∧ q.pc = .handle cursor messages todo ∧
      q.log = handleMessage course p message.1 ∧ q.handled = p.handled ++ [message] := by
  simp only [next, at_call]
  exact ⟨_, rfl, rfl, rfl, rfl⟩

theorem next_test {cursor : Option Nat} {messages : List (Nat × Fields)}
    (at_test : p.pc = .handle cursor messages []) :
    ∃ q, next course consumer p = some q ∧
      q.pc = (if cursor = none ∨ messages = [] then .returned else .claim cursor) ∧
      q.log = p.log ∧ q.handled = p.handled := by
  simp only [next, at_test]
  exact ⟨_, rfl, rfl, rfl, rfl⟩

theorem next_returned (done : p.pc = .returned) : next course consumer p = none := by
  simp only [next, done]

/-! Handling the entries below an id leaves the list from there on alone -/

/-- The same pending entries from an id on, and the log only longer. -/
structure Keeps (bound : Nat) (before after : StreamLog Fields) : Prop where
  entries : before.entries <+: after.entries
  pending : ∀ e, bound ≤ e.id → (e ∈ after.pending ↔ e ∈ before.pending)

namespace Keeps

variable {bound : Nat} {a b c : StreamLog Fields}

theorem refl (bound : Nat) (a : StreamLog Fields) : Keeps bound a a :=
  ⟨List.prefix_rfl, fun _ _ => Iff.rfl⟩

theorem trans (first : Keeps bound a b) (second : Keeps bound b c) : Keeps bound a c :=
  ⟨first.entries.trans second.entries,
    fun e high => (second.pending e high).trans (first.pending e high)⟩

theorem mono {higher : Nat} (le : bound ≤ higher) (keeps : Keeps bound a b) :
    Keeps higher a b :=
  ⟨keeps.entries, fun e high => keeps.pending e (Nat.le_trans le high)⟩

theorem xadd (bound : Nat) (a : StreamLog Fields) (fs : List Fields) :
    Keeps bound a (fs.foldl StreamLog.xadd a) := by
  induction fs generalizing a with
  | nil => exact refl bound a
  | cons f rest ih =>
    have first : Keeps bound a (a.xadd f) := ⟨List.prefix_append _ _, fun _ _ => Iff.rfl⟩
    exact first.trans (ih (a.xadd f))

theorem xack {id : Nat} (below : id < bound) (a : StreamLog Fields) :
    Keeps bound a (a.xack id) := by
  refine ⟨List.prefix_rfl, fun e high => ?_⟩
  have other : e.id ≠ id := Nat.ne_of_gt (Nat.lt_of_lt_of_le below high)
  simp only [StreamLog.xack, List.mem_filter, decide_eq_true_eq]
  exact and_iff_left other

theorem xclaim {ids : List Nat} (below : ∀ id ∈ ids, id < bound) (a : StreamLog Fields)
    (consumer : Nat) (now : ℚ) : Keeps bound a (a.xclaim consumer now ids) := by
  refine ⟨List.prefix_rfl, fun e high => ?_⟩
  have unclaimed : ∀ e : PendingEntry, bound ≤ e.id →
      StreamLog.PendingEntry.claimBy consumer now ids e = e := fun e high =>
    if_neg fun listed => absurd (below _ listed) (Nat.not_lt_of_le high)
  simp only [StreamLog.xclaim, List.mem_map]
  constructor
  · rintro ⟨e', member, rfl⟩
    rw [StreamLog.PendingEntry.claimBy_id] at high
    rwa [unclaimed e' high]
  · exact fun member => ⟨e, member, unclaimed e high⟩

theorem handleMessage {course : Course} {p : Pass} {id : Nat} (below : id < bound) :
    Keeps bound p.log (handleMessage course p id) := by
  unfold Reclaim.handleMessage
  have added := xadd bound p.log (course.added p.awaited)
  split
  · exact added.trans (xack below _)
  · exact added

end Keeps

end Relay.Reclaim
