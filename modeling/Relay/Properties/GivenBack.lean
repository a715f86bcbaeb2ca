import Relay.Delivery.Attempt
import Relay.Delivery.Tokens
import Relay.Lib.Transition

/-!
# Locks and slots are given back

One call of `deliver_with_gates` on any store, among processes that do whatever
they like with tokens of their own. Any awaited call may raise, before or after
its command took effect. The head is read outside of the `try`: there the lock
has been taken and nothing releases it, and a slot whose grant is not answered
is known to nobody.
-/

namespace Relay

open Worker Transition

/-- A call under way, with the locks and the slots that it was granted: the
endpoint or the tenant, and the token. -/
structure Visit where
  clock : ℚ
  store : Store
  pc : Pc
  locks : List (Uuid × Uuid)
  slots : List (Uuid × Uuid)

namespace Visit

/-- `applied`: the command was executed, though its call raises. -/
inductive Label where
  | returns (c : Choice)
  | raises (c : Choice) (applied : Bool)
  | others (clock : ℚ) (s : Store)

def start (clock now : ℚ) (s : Store) : Visit := ⟨clock, s, .loadDelivery now, [], []⟩

/-- The lock that the answer of `acquire_lock` puts into the hands of the call. -/
def grantedLock : Pc → Pc → List (Uuid × Uuid)
  | .acquireLock _, answer => answer.holding.toList
  | _, _ => []

/-- The slot, for `acquire_slot`. -/
def grantedSlot : Pc → Pc → List (Uuid × Uuid)
  | .acquireSlot _ _, answer => answer.occupying.toList
  | _, _ => []

/-- The command of `x.pc` was executed and answered with `answer`; the call goes
on at `pc`. -/
def executed (x : Visit) (s : Store) (answer pc : Pc) : Visit where
  clock := x.clock
  store := s
  pc := pc
  locks := grantedLock x.pc answer ++ x.locks
  slots := grantedSlot x.pc answer ++ x.slots

def step (env : Env) (id : Uuid) : Label → Visit → Option Visit
  | .returns c, x =>
    (x.pc.step env x.clock c 0 0 id x.store).map (fun y => x.executed y.1 y.2 y.2)
  | .raises c true, x =>
    (x.pc.step env x.clock c 0 0 id x.store).map (fun y => x.executed y.1 y.2 x.pc.onRaise)
  | .raises _ false, x => some { x with pc := x.pc.onRaise }
  | .others clock s, x => some { x with clock := clock, store := s }

/-- A token that `uuid4` draws is new. -/
def Fresh (x : Visit) (token : Uuid) : Prop :=
  (∀ g ∈ x.locks, g.2 ≠ token) ∧ ∀ g ∈ x.slots, g.2 ≠ token

/-- Time does not go back, and no other process writes a token of this call. -/
structure Apart (x : Visit) (clock : ℚ) (s : Store) : Prop where
  later : x.clock ≤ clock
  locks : ∀ g ∈ x.locks, Expiring.live clock (s.locks g.1) = some g.2 →
    Expiring.live clock (x.store.locks g.1) = some g.2
  slots : ∀ g ∈ x.slots, s.Occupied g.1 g.2 → x.store.Occupied g.1 g.2

/-- The release commands succeed, and `acquire_lock` answers what it did. -/
def raisesAt (applied : Bool) : Pc → Bool
  | .acquireLock _ => !applied
  | .releaseNotHead _ | .releaseSlot .. | .releaseLock .. => false
  | _ => true

def Supposed (x : Visit) : Label → Prop
  | .returns c => x.Fresh c.token
  | .raises c applied => x.Fresh c.token ∧ raisesAt applied x.pc = true
  | .others clock s => x.Apart clock s

/-- `peek_head` does not raise, and `acquire_slot` not once its script has run. -/
def answers (applied : Bool) : Pc → Bool
  | .peekHead _ => false
  | .acquireSlot _ _ => !applied
  | _ => true

def Answered (x : Visit) : Label → Prop
  | .raises _ applied => answers applied x.pc = true
  | _ => True

/-- `deliver_with_gates` has returned or raised. -/
def left : Pc → Bool
  | .close _ | .ack | .finished => true
  | _ => false

/-- What was granted is in the hands of the call or given back. -/
structure Settled (x : Visit) : Prop where
  locks : ∀ g ∈ x.locks, x.pc.holding = some g ∨
    Expiring.live x.clock (x.store.locks g.1) ≠ some g.2
  slots : ∀ g ∈ x.slots, x.pc.occupying = some g ∨ ¬ x.store.Occupied g.1 g.2

variable {env : Env} {id : Uuid} {x y : Visit} {l : Label} {c : Choice}

/-- An exception inside the `try`, or before and after it, loses no token. -/
theorem onRaise_keeps {pc : Pc} {applied : Bool} (supposed : raisesAt applied pc = true)
    (answered : answers applied pc = true) :
    pc.onRaise.holding = pc.holding ∧ pc.onRaise.occupying = pc.occupying := by
  cases pc with
  | peekHead v => exact absurd answered Bool.false_ne_true
  | releaseNotHead v | releaseSlot v slot acks | releaseLock v token acks =>
    exact absurd supposed Bool.false_ne_true
  | allowRequest v | getState v | disable v | loadTenant v | takeToken v rate | loadTenantAgain v
  | acquireSlot v cap | deferGated v dueAt =>
    exact ⟨Pc.holding_unlock v false, Pc.occupying_unlock v false⟩
  | _ => exact ⟨rfl, rfl⟩

theorem grantedLock_nil {pc pc' : Pc} (same : pc'.holding = pc.holding ∨ pc'.holding = none) :
    grantedLock pc pc' = [] := by
  cases pc with
  | acquireLock v =>
    have none_held : pc'.holding = none := same.elim id id
    rw [grantedLock, none_held]
    rfl
  | _ => rfl

theorem grantedSlot_nil {pc pc' : Pc} (same : pc'.occupying = pc.occupying ∨
    pc'.occupying = none) : grantedSlot pc pc' = [] := by
  cases pc with
  | acquireSlot v cap =>
    have none_held : pc'.occupying = none := same.elim id id
    rw [grantedSlot, none_held]
    rfl
  | _ => rfl

/-- A command that grants nothing, and whose answer `pc` lets go of no token that is
still in the store. -/
structure Ungranted (x : Visit) (s : Store) (pc : Pc) : Prop where
  lock : grantedLock x.pc pc = []
  slot : grantedSlot x.pc pc = []
  locks : ∀ g, Expiring.live x.clock (s.locks g.1) = some g.2 →
    Expiring.live x.clock (x.store.locks g.1) = some g.2 ∧
      (x.pc.holding = some g → pc.holding = some g)
  slots : ∀ g, s.Occupied g.1 g.2 →
    x.store.Occupied g.1 g.2 ∧ (x.pc.occupying = some g → pc.occupying = some g)

/-- A returning await is granted the lock, the slot or nothing. -/
theorem step_granted {s : Store} {pc : Pc}
    (next : x.pc.step env x.clock c 0 0 id x.store = some (s, pc)) :
    (∃ v, x.pc = .acquireLock v ∧ pc = .peekHead { v with lockToken := some c.token } ∧
      x.store.acquireLock v.endpoint.id c.token x.clock = some s) ∨
    (∃ v cap, x.pc = .acquireSlot v cap ∧ pc = .reloadDelivery v c.token ∧
      x.store.acquireSlot v.endpoint.tenantId cap x.clock v.now c.token = (s, true)) ∨
    Ungranted x s pc := by
  cases Pc.step_exchange next with
  | lock v before acquired after => exact Or.inl ⟨v, before, after, acquired⟩
  | slot v cap before granted after => exact Or.inr (Or.inl ⟨v, cap, before, after, granted⟩)
  | unlock endpointId token before released after slots =>
    refine Or.inr (Or.inr ⟨grantedLock_nil (Or.inr after), grantedSlot_nil (Or.inr slots.2),
      fun g live => ?_, fun g occupied => ?_⟩)
    · rw [released] at live
      obtain ⟨old, other⟩ := Store.live_releaseLock live
      refine ⟨old, fun mine => ?_⟩
      rw [before] at mine
      exact absurd (Option.some.inj mine).symm other
    · obtain ⟨k, stored, mem⟩ := occupied
      rw [released, Store.inflight_releaseLock] at stored
      refine ⟨⟨k, stored, mem⟩, fun mine => ?_⟩
      rw [slots.1] at mine
      cases mine
  | free tenantId token before released after lock =>
    refine Or.inr (Or.inr ⟨grantedLock_nil (Or.inl lock), grantedSlot_nil (Or.inr after),
      fun g live => ?_, fun g occupied => ?_⟩)
    · rw [released] at live
      exact ⟨live, fun mine => lock.trans mine⟩
    · rw [released] at occupied
      obtain ⟨old, other⟩ := Store.occupied_releaseSlot occupied
      refine ⟨old, fun mine => ?_⟩
      rw [before] at mine
      exact absurd (Option.some.inj mine).symm other
  | neither locks slots lock slot =>
    refine Or.inr (Or.inr ⟨grantedLock_nil (Or.inl lock), grantedSlot_nil (Or.inl slot),
      fun g live => ?_, fun g occupied => ?_⟩)
    · rw [locks] at live
      exact ⟨live, fun mine => lock.trans mine⟩
    · exact ⟨slots g.1 g.2 occupied, fun mine => slot.trans mine⟩

/-- Whatever is then still in the store has to be in the hands of the call. -/
theorem Settled.keep (inv : Settled x) {s : Store} {answer pc : Pc}
    (ungranted : Ungranted x s answer)
    (holds : ∀ g, x.pc.holding = some g → answer.holding = some g → pc.holding = some g)
    (occupies : ∀ g, x.pc.occupying = some g → answer.occupying = some g →
      pc.occupying = some g) : Settled (x.executed s answer pc) where
  locks := by
    intro g listed
    rw [executed, ungranted.lock] at listed
    by_cases live : Expiring.live x.clock (s.locks g.1) = some g.2
    · obtain ⟨before, held⟩ := ungranted.locks g live
      rcases inv.locks g listed with mine | dead
      · exact Or.inl (holds g mine (held mine))
      · exact absurd before dead
    · exact Or.inr live
  slots := by
    intro g listed
    rw [executed, ungranted.slot] at listed
    by_cases occupied : s.Occupied g.1 g.2
    · obtain ⟨before, held⟩ := ungranted.slots g occupied
      rcases inv.slots g listed with mine | free
      · exact Or.inl (occupies g mine (held mine))
      · exact absurd before free
    · exact Or.inr occupied

theorem Settled.lock (inv : Settled x) (fresh : x.Fresh c.token) {v : Locals} {s : Store}
    (before : x.pc = .acquireLock v)
    (acquired : x.store.acquireLock v.endpoint.id c.token x.clock = some s) :
    Settled (x.executed s (.peekHead { v with lockToken := some c.token })
      (.peekHead { v with lockToken := some c.token })) where
  locks := by
    intro g listed
    rw [executed, before] at listed
    rcases List.mem_cons.mp listed with rfl | old
    · exact Or.inl rfl
    · right
      have dead := (inv.locks g old).resolve_left (by rw [before]; exact nofun)
      have locks := (Store.acquireLock_some acquired).2
      simp only [executed, locks]
      by_cases same : g.1 = v.endpoint.id
      · rw [same, Function.update_self]
        intro live
        obtain ⟨k, stored, value, _⟩ := Expiring.stored_of_live live
        cases stored
        exact fresh.1 g old value.symm
      · rw [Function.update_of_ne same]
        exact dead
  slots := by
    intro g listed
    rw [executed, before] at listed
    have free := (inv.slots g listed).resolve_left (by rw [before]; exact nofun)
    right
    rintro ⟨k, stored, mem⟩
    exact free ⟨k, Store.inflight_acquireLock acquired ▸ stored, mem⟩

theorem Settled.slot (inv : Settled x) (fresh : x.Fresh c.token) {v : Locals} {cap : Nat}
    {s : Store} (before : x.pc = .acquireSlot v cap)
    (granted : x.store.acquireSlot v.endpoint.tenantId cap x.clock v.now c.token = (s, true)) :
    Settled (x.executed s (.reloadDelivery v c.token) (.reloadDelivery v c.token)) where
  locks := by
    intro g listed
    rw [executed, before] at listed
    have locks : s.locks = x.store.locks := (congrArg (fun a => a.1.locks) granted).symm
    have held := inv.locks g listed
    rw [before] at held
    simp only [executed, locks]
    exact held
  slots := by
    intro g listed
    rw [executed, before] at listed
    rcases List.mem_cons.mp listed with rfl | old
    · exact Or.inl rfl
    · right
      have free := (inv.slots g old).resolve_left (by rw [before]; exact nofun)
      intro occupied
      rcases Store.occupied_acquireSlot granted occupied with still | ⟨_, _, token⟩
      · exact free still
      · exact fresh.2 g old token

/-- A returning await. -/
theorem Settled.returns (inv : Settled x) (fresh : x.Fresh c.token) {s : Store} {pc : Pc}
    (next : x.pc.step env x.clock c 0 0 id x.store = some (s, pc)) :
    Settled (x.executed s pc pc) := by
  rcases step_granted next with ⟨v, before, rfl, acquired⟩ |
    ⟨v, cap, before, rfl, granted⟩ |
    ungranted
  · exact inv.lock fresh before acquired
  · exact inv.slot fresh before granted
  · exact inv.keep ungranted (fun _ _ now => now) (fun _ _ now => now)

/-- A raising await whose command was executed. -/
theorem Settled.raises (inv : Settled x) (supposed : raisesAt true x.pc = true)
    (answered : answers true x.pc = true) {s : Store} {pc : Pc}
    (next : x.pc.step env x.clock c 0 0 id x.store = some (s, pc)) :
    Settled (x.executed s pc x.pc.onRaise) := by
  rcases step_granted next with ⟨v, before, _⟩ | ⟨v, cap, before, _⟩ | ungranted
  · rw [before] at supposed
    cases supposed
  · rw [before] at answered
    cases answered
  · obtain ⟨holding, occupying⟩ := onRaise_keeps supposed answered
    exact inv.keep ungranted (fun _ mine _ => holding.trans mine)
      (fun _ mine _ => occupying.trans mine)

/-- A raising await whose command was not executed. -/
theorem Settled.failed (inv : Settled x) {applied : Bool}
    (supposed : raisesAt applied x.pc = true) (answered : answers applied x.pc = true) :
    Settled { x with pc := x.pc.onRaise } := by
  obtain ⟨holding, occupying⟩ := onRaise_keeps supposed answered
  exact ⟨fun g listed => (inv.locks g listed).imp_left holding.trans,
    fun g listed => (inv.slots g listed).imp_left occupying.trans⟩

theorem Settled.step (inv : Settled x) (supposed : x.Supposed l) (answered : x.Answered l)
    (next : step env id l x = some y) : Settled y := by
  cases l with
  | returns c =>
    obtain ⟨⟨s, pc⟩, stepped, rfl⟩ := Option.map_eq_some_iff.mp next
    exact inv.returns supposed stepped
  | raises c applied =>
    cases applied with
    | true =>
      obtain ⟨⟨s, pc⟩, stepped, rfl⟩ := Option.map_eq_some_iff.mp next
      exact inv.raises supposed.2 answered stepped
    | false =>
      cases next
      exact inv.failed supposed.2 answered
  | others clock s =>
    cases next
    have apart : x.Apart clock s := supposed
    refine ⟨fun g listed => ?_, fun g listed => ?_⟩
    · rcases inv.locks g listed with mine | dead
      · exact Or.inl mine
      · exact Or.inr
          (fun live => dead (Expiring.live_mono (apart.locks g listed live) apart.later))
    · rcases inv.slots g listed with mine | free
      · exact Or.inl mine
      · exact Or.inr (fun occupied => free (apart.slots g listed occupied))

def admits (x : Visit) : Label → Bool
  | .returns c => x.locks.all (fun g => g.2 ≠ c.token) && x.slots.all (fun g => g.2 ≠ c.token)
  | .raises c applied =>
    x.locks.all (fun g => g.2 ≠ c.token) && x.slots.all (fun g => g.2 ≠ c.token) &&
      raisesAt applied x.pc
  | .others .. => false

end Visit

end Relay
