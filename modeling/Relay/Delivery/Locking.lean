import Relay.Lib.Transition
import Relay.Store

/-!
# The lock of an ordered endpoint

Any number of workers acquire and release; the key expires when its time to live
has passed. A worker remembers its token and may release late, when the lock has
long been someone else's, or never. Tokens are drawn once.
-/

namespace Relay

open Transition

/-- A granted lock; `deadline` is when its key expires. -/
structure Grant where
  worker : Nat
  token : Uuid
  deadline : ℚ

/-- The store and the clock, with the grants and the releases so far. -/
structure Locking where
  store : Store
  clock : ℚ
  granted : List Grant
  released : List Uuid

namespace Locking

inductive Label where
  | tick (time : ℚ)
  | acquireLock (worker : Nat) (token : Uuid)
  | releaseLock (worker : Nat) (token : Uuid)

def start (s : Store) (clock : ℚ) : Locking :=
  ⟨{ s with locks := fun _ => none }, clock, [], []⟩

def step (endpointId : Uuid) : Label → Locking → Option Locking
  | .tick time, x => if x.clock ≤ time then some { x with clock := time } else none
  | .acquireLock worker token, x =>
    if token ∈ x.granted.map Grant.token then none
    else
      match x.store.acquireLock endpointId token x.clock with
      | none => some x
      | some s =>
        some { x with
          store := s
          granted := ⟨worker, token, x.clock + Store.lockTtl⟩ :: x.granted }
  | .releaseLock worker token, x =>
    if (worker, token) ∈ x.granted.map (fun g => (g.worker, g.token)) then
      some { x with
        store := x.store.releaseLock endpointId token x.clock
        released := token :: x.released }
    else none

/-- Acquired, unreleased and unexpired. -/
def Held (x : Locking) (g : Grant) : Prop :=
  g ∈ x.granted ∧ g.token ∉ x.released ∧ x.clock ≤ g.deadline

/-- A held lock is the key, and the key is some grant's. -/
structure Exclusive (endpointId : Uuid) (x : Locking) : Prop where
  distinct : (x.granted.map Grant.token).Nodup
  key : ∀ g, x.Held g → x.store.locks endpointId = some ⟨g.token, g.deadline⟩
  known : ∀ k, x.store.locks endpointId = some k → k.value ∈ x.granted.map Grant.token

variable {endpointId : Uuid} {x y : Locking} {l : Label}

theorem exclusive_start (endpointId : Uuid) (s : Store) (clock : ℚ) :
    Exclusive endpointId (start s clock) where
  distinct := List.nodup_nil
  key := fun _ held => absurd held.1 List.not_mem_nil
  known := fun _ h => by cases h

theorem Exclusive.same (inv : Exclusive endpointId x) {g g' : Grant} (listed : g ∈ x.granted)
    (listed' : g' ∈ x.granted) (token : g.token = g'.token) : g = g' :=
  List.inj_on_of_nodup_map inv.distinct listed listed' token

/-- Two held locks are one. -/
theorem Exclusive.unique (inv : Exclusive endpointId x) {g g' : Grant} (held : x.Held g)
    (held' : x.Held g') : g = g' := by
  have one := (inv.key g held).symm.trans (inv.key g' held')
  have token : g.token = g'.token := congrArg Expiring.value (Option.some.inj one)
  exact inv.same held.1 held'.1 token

/-- A release deletes the key only while the releaser's own token is in it. -/
theorem Exclusive.others_kept (inv : Exclusive endpointId x) {worker : Nat} {token : Uuid}
    (next : step endpointId (.releaseLock worker token) x = some y) {g : Grant}
    (listed : g ∈ x.granted)
    (owns : Expiring.live x.clock (x.store.locks endpointId) = some g.token)
    (other : g.worker ≠ worker) : y.store.locks endpointId = x.store.locks endpointId := by
  simp only [step] at next
  split at next
  · rename_i remembered
    cases next
    obtain ⟨own, listed', same⟩ := List.mem_map.mp remembered
    obtain ⟨rfl, rfl⟩ := Prod.mk.inj same
    have foreign : g.token ≠ own.token := by
      intro same
      rw [inv.same listed listed' same] at other
      exact other rfl
    rw [Store.releaseLock_kept]
    rw [owns]
    exact fun same => foreign (Option.some.inj same)
  · cases next

theorem Exclusive.acquire (inv : Exclusive endpointId x) {worker : Nat} {token : Uuid}
    (fresh : token ∉ x.granted.map Grant.token) {s : Store}
    (acquired : x.store.acquireLock endpointId token x.clock = some s) :
    Exclusive endpointId { x with
      store := s
      granted := ⟨worker, token, x.clock + Store.lockTtl⟩ :: x.granted } := by
  obtain ⟨free, locks⟩ := Store.acquireLock_some acquired
  have key : s.locks endpointId = some ⟨token, x.clock + Store.lockTtl⟩ := by
    rw [locks, Function.update_self]
  refine ⟨List.nodup_cons.mpr ⟨fresh, inv.distinct⟩, fun g held => ?_, fun k stored => ?_⟩
  · rcases List.mem_cons.mp held.1 with rfl | old
    · exact key
    · -- an older grant that is still held would have kept the key alive
      have alive := inv.key g ⟨old, held.2⟩
      have live : Expiring.live x.clock (x.store.locks endpointId) = some g.token := by
        rw [alive]
        exact Expiring.live_some held.2.2
      rw [free] at live
      cases live
  · rw [key] at stored
    cases stored
    exact List.mem_cons_self

theorem Exclusive.release (inv : Exclusive endpointId x) (own : Grant) :
    Exclusive endpointId { x with
      store := x.store.releaseLock endpointId own.token x.clock
      released := own.token :: x.released } where
  distinct := inv.distinct
  key := by
    intro g held
    obtain ⟨granted, unreleased, alive⟩ := held
    have other : g.token ≠ own.token := fun same => unreleased (same ▸ List.mem_cons_self)
    have stored := inv.key g
      ⟨granted, fun old => unreleased (List.mem_cons_of_mem _ old), alive⟩
    have kept : x.store.releaseLock endpointId own.token x.clock = x.store := by
      apply Store.releaseLock_kept
      rw [stored, Expiring.live_some alive]
      exact fun same => other (Option.some.inj same)
    simp only [kept]
    exact stored
  known := by
    intro k stored
    change (x.store.releaseLock endpointId own.token x.clock).locks endpointId = some k at stored
    rcases x.store.locks_releaseLock endpointId own.token x.clock with same | ⟨_, freed⟩
    · rw [same] at stored
      exact inv.known k stored
    · rw [freed, Function.update_self] at stored
      cases stored

theorem Exclusive.step (inv : Exclusive endpointId x)
    (next : Locking.step endpointId l x = some y) : Exclusive endpointId y := by
  cases l with
  | tick time =>
    simp only [Locking.step] at next
    split at next
    · rename_i later
      cases next
      exact ⟨inv.distinct,
        fun g held => inv.key g ⟨held.1, held.2.1, le_trans later held.2.2⟩, inv.known⟩
    · cases next
  | acquireLock worker token =>
    simp only [Locking.step] at next
    split at next
    · cases next
    · rename_i fresh
      split at next
      · cases next
        exact inv
      · rename_i acquired
        cases next
        exact inv.acquire fresh acquired
  | releaseLock worker token =>
    simp only [Locking.step] at next
    split at next
    · rename_i remembered
      cases next
      obtain ⟨own, _, same⟩ := List.mem_map.mp remembered
      obtain ⟨rfl, rfl⟩ := Prod.mk.inj same
      exact inv.release own
    · cases next

theorem exclusive_run {s : Store} {clock : ℚ}
    (run : Run (Locking.step endpointId) (fun _ _ => True) (start s clock) x) :
    Exclusive endpointId x :=
  run.invariant (exclusive_start endpointId s clock) (fun inv _ next => inv.step next)

end Locking

end Relay
