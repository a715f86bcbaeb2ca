import Relay.Delivery.Worker

/-!
# The tokens in the hands of a call

A call of `deliver_with_gates` takes at most the lock of its endpoint and a slot
of its tenant, and each location decides which of them it still has. Every
returning await takes one of the two, gives one back, or leaves both alone.
-/

namespace Relay

open Worker

/-- The local variables from the grant of the lock to its release. -/
def Worker.Pc.past : Pc → Option Locals
  | .peekHead v | .releaseNotHead v | .allowRequest v | .getState v | .disable v | .loadTenant v
  | .takeToken v _ | .loadTenantAgain v | .acquireSlot v _ | .deferGated v _ | .reloadDelivery v _
  | .reloadEndpoint v _ | .loadEvent v _ | .commitDelivering v _ | .send v _ | .receive v _
  | .commitOutcome v _ _ _ _ | .scheduleRetry v _ _ | .refresh v _ | .recordOutcome v _ _
  | .publishTrigger v _ _ | .popHead v _ | .releaseSlot v _ _ => some v
  | _ => none

/-- The lock that is held: the endpoint and the token. -/
def Worker.Pc.holding : Pc → Option (Uuid × Uuid)
  | .releaseLock v token _ => some (v.endpoint.id, token)
  | pc => pc.past.bind (fun v => v.lockToken.map (fun token => (v.endpoint.id, token)))

/-- The slot that is held: the tenant and the token. -/
def Worker.Pc.occupying : Pc → Option (Uuid × Uuid)
  | .reloadDelivery v slot | .reloadEndpoint v slot | .loadEvent v slot | .commitDelivering v slot
  | .send v slot | .receive v slot | .commitOutcome v slot _ _ _ | .scheduleRetry v slot _
  | .refresh v slot | .recordOutcome v slot _ | .publishTrigger v slot _ | .popHead v slot
  | .releaseSlot v slot _ => some (v.endpoint.tenantId, slot)
  | _ => none

/-- The key of the tenant's slots contains the token. -/
def Store.Occupied (s : Store) (tenantId token : Uuid) : Prop :=
  ∃ k ∈ s.inflight tenantId, k.value.Mem token

section

variable {s s' : Store} {tenantId token : Uuid} {cap : Nat} {clock now : ℚ} {granted : Bool}

/-- The sweep removes, and only a grant adds. -/
theorem RateLimit.mem_acquireSlot {slots : Option (Expiring (ZSet Uuid))} {t : Uuid}
    {k : Expiring (ZSet Uuid)} (after : k ∈ (acquireSlot slots clock cap now token).1)
    (mem : k.value.Mem t) :
    (∃ j ∈ slots, j.value.Mem t) ∨
      ((acquireSlot slots clock cap now token).2 = true ∧ t = token) := by
  have swept : (((Expiring.live clock slots).getD ZSet.empty).zremUpTo now).Mem t →
      ∃ j ∈ slots, j.value.Mem t := by
    intro kept
    have listed := ZSet.mem_of_mem_keep kept
    cases found : Expiring.live clock slots with
    | none =>
      rw [found] at listed
      exact absurd listed (ZSet.not_mem_empty t)
    | some held =>
      obtain ⟨j, stored, rfl, _⟩ := Expiring.stored_of_live found
      rw [found] at listed
      exact ⟨j, stored, listed⟩
  simp only [acquireSlot] at after ⊢
  split at after
  · obtain ⟨j, _, rfl⟩ := Option.mem_map.mp after
    exact Or.inl (swept mem)
  · rename_i room
    cases after
    rw [if_neg room]
    rcases ZSet.mem_zadd.mp mem with old | new
    · exact Or.inl (swept old)
    · exact Or.inr ⟨rfl, new⟩

theorem Store.occupied_acquireSlot {n t : Uuid}
    (answer : s.acquireSlot tenantId cap clock now token = (s', granted))
    (after : s'.Occupied n t) :
    s.Occupied n t ∨ (granted = true ∧ n = tenantId ∧ t = token) := by
  cases answer
  obtain ⟨k, stored, mem⟩ := after
  by_cases same : n = tenantId
  · subst same
    simp only [Function.update_self] at stored
    rcases RateLimit.mem_acquireSlot stored mem with old | ⟨yes, new⟩
    · exact Or.inl old
    · exact Or.inr ⟨yes, rfl, new⟩
  · simp only [Function.update_of_ne same] at stored
    exact Or.inl ⟨k, stored, mem⟩

theorem Store.occupied_releaseSlot {n t : Uuid}
    (after : (s.releaseSlot tenantId token).Occupied n t) :
    s.Occupied n t ∧ (n, t) ≠ (tenantId, token) := by
  obtain ⟨k, stored, mem⟩ := after
  by_cases same : n = tenantId
  · subst same
    simp only [Store.releaseSlot, Function.update_self] at stored
    obtain ⟨j, held, rfl⟩ := Option.mem_map.mp stored
    obtain ⟨kept, ne⟩ := ZSet.mem_zrem.mp mem
    exact ⟨⟨j, held, kept⟩, fun same => ne (Prod.mk.inj same).2⟩
  · simp only [Store.releaseSlot, Function.update_of_ne same] at stored
    exact ⟨⟨k, stored, mem⟩, fun both => same (Prod.mk.inj both).1⟩

theorem Store.inflight_acquireLock {endpointId : Uuid}
    (acquired : s.acquireLock endpointId token clock = some s') : s'.inflight = s.inflight := by
  unfold Store.acquireLock at acquired
  split at acquired <;> cases acquired
  rfl

theorem Store.inflight_releaseLock (endpointId : Uuid) :
    (s.releaseLock endpointId token clock).inflight = s.inflight := by
  unfold Store.releaseLock
  split <;> rfl

/-- What a release leaves under the key is not the released token. -/
theorem Store.live_releaseLock {endpointId e t : Uuid}
    (after : Expiring.live clock ((s.releaseLock endpointId token clock).locks e) = some t) :
    Expiring.live clock (s.locks e) = some t ∧ (e, t) ≠ (endpointId, token) := by
  by_cases own : Expiring.live clock (s.locks endpointId) = some token
  · rw [Store.releaseLock, if_pos own] at after
    by_cases same : e = endpointId
    · subst same
      simp only [Function.update_self] at after
      cases after
    · simp only [Function.update_of_ne same] at after
      exact ⟨after, fun both => same (Prod.mk.inj both).1⟩
  · rw [Store.releaseLock_kept own] at after
    refine ⟨after, fun both => ?_⟩
    obtain ⟨rfl, rfl⟩ := Prod.mk.inj both
    exact own after

end

namespace Worker

variable {env : Env} {clock : ℚ} {c : Choice} {shard messageId : Nat} {id : Uuid}
  {s s' : Store} {pc pc' : Pc}

theorem Pc.holding_unlock (v : Locals) (acks : Bool) :
    (Pc.unlock v acks).holding = v.lockToken.map (fun token => (v.endpoint.id, token)) := by
  unfold Pc.unlock
  split
  · rename_i token found
    rw [found]
    rfl
  · rename_i none_held
    rw [none_held]
    rfl

theorem Pc.holding_afterOutcome (v : Locals) (slot : Uuid) :
    (Pc.afterOutcome v slot).holding =
      v.lockToken.map (fun token => (v.endpoint.id, token)) := by
  unfold Pc.afterOutcome
  split <;> rfl

theorem Pc.occupying_unlock (v : Locals) (acks : Bool) : (Pc.unlock v acks).occupying = none := by
  unfold Pc.unlock
  split <;> rfl

theorem Pc.occupying_afterOutcome (v : Locals) (slot : Uuid) :
    (Pc.afterOutcome v slot).occupying = some (v.endpoint.tenantId, slot) := by
  unfold Pc.afterOutcome
  split <;> rfl

/-- What a returning await does to the lock and the slot of its call. -/
inductive Pc.Exchange (clock : ℚ) (c : Choice) (s s' : Store) (pc pc' : Pc) : Prop
  | lock (v : Locals) (before : pc = .acquireLock v)
      (acquired : s.acquireLock v.endpoint.id c.token clock = some s')
      (after : pc' = .peekHead { v with lockToken := some c.token })
  | slot (v : Locals) (cap : Nat) (before : pc = .acquireSlot v cap)
      (granted : s.acquireSlot v.endpoint.tenantId cap clock v.now c.token = (s', true))
      (after : pc' = .reloadDelivery v c.token)
  | unlock (endpointId token : Uuid) (before : pc.holding = some (endpointId, token))
      (released : s' = s.releaseLock endpointId token clock) (after : pc'.holding = none)
      (slots : pc.occupying = none ∧ pc'.occupying = none)
  | free (tenantId token : Uuid) (before : pc.occupying = some (tenantId, token))
      (released : s' = s.releaseSlot tenantId token) (after : pc'.occupying = none)
      (lock : pc'.holding = pc.holding)
  | neither (locks : s'.locks = s.locks) (slots : ∀ n t, s'.Occupied n t → s.Occupied n t)
      (lock : pc'.holding = pc.holding) (slot : pc'.occupying = pc.occupying)

theorem Pc.step_exchange (h : pc.step env clock c shard messageId id s = some (s', pc')) :
    Exchange clock c s s' pc pc' := by
  have same : ∀ n t, s.Occupied n t → s.Occupied n t := fun _ _ held => held
  cases pc with
  | acquireLock v =>
    simp only [Pc.step] at h
    split at h
    · cases h
      exact .neither rfl same rfl rfl
    · rename_i acquired
      cases h
      exact .lock v rfl acquired rfl
  | acquireSlot v cap =>
    simp only [Pc.step] at h
    split at h
    · rename_i answer
      cases h
      exact .slot v cap rfl answer rfl
    · rename_i answer
      cases h
      refine .neither (congrArg (fun a => a.1.locks) answer).symm (fun n t held => ?_) rfl rfl
      rcases Store.occupied_acquireSlot answer held with old | ⟨yes, _⟩
      · exact old
      · cases yes
  | releaseNotHead v =>
    simp only [Pc.step] at h
    cases held : v.lockToken with
    | none =>
      rw [held] at h
      cases h
      refine .neither rfl same ?_ rfl
      simp [Pc.holding, Pc.past, held]
    | some token =>
      rw [held] at h
      cases h
      refine .unlock v.endpoint.id token ?_ rfl rfl ⟨rfl, rfl⟩
      simp [Pc.holding, Pc.past, held]
  | releaseLock v token acks =>
    cases h
    exact .unlock v.endpoint.id token rfl rfl rfl ⟨rfl, rfl⟩
  | releaseSlot v slot acks =>
    cases h
    exact .free v.endpoint.tenantId slot rfl rfl (occupying_unlock v acks) (holding_unlock v acks)
  | deferGated v dueAt =>
    cases h
    exact .neither rfl same (holding_unlock v true) (occupying_unlock v true)
  | takeToken v rate | allowRequest v =>
    simp only [Pc.step] at h
    split at h
    all_goals
      rename_i answer
      cases h
      have locks := (congrArg (fun a => a.1.locks) answer).symm
      have inflight := (congrArg (fun a => a.1.inflight) answer).symm
      refine .neither locks (fun n t held => ?_) rfl rfl
      unfold Store.Occupied at held ⊢
      exact inflight ▸ held
  | recordOutcome v slot time =>
    simp only [Pc.step] at h
    split at h
    · cases h
      exact .neither rfl same rfl rfl
    · cases h
      exact .neither rfl same (holding_afterOutcome v slot) (occupying_afterOutcome v slot)
  | publishTrigger v slot event =>
    cases h
    exact .neither rfl same (holding_afterOutcome v slot) (occupying_afterOutcome v slot)
  | _ =>
    simp only [Pc.step] at h
    repeat' split at h
    all_goals
      cases h <;> exact .neither rfl same rfl rfl

theorem Pc.holding_onRaise (pc : Pc) :
    pc.onRaise.holding = pc.holding ∨ pc.onRaise.holding = none := by
  cases pc <;> first
    | exact Or.inl (holding_unlock _ _)
    | exact Or.inl rfl
    | exact Or.inr rfl

end Worker

end Relay
