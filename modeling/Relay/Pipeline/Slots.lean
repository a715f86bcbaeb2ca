import Relay.Delivery.Tokens
import Relay.Pipeline.Rows
import Relay.Pipeline.Transient
import Relay.Properties.InFlightCap

/-!
# The slots of a tenant in the pipeline

Every run of the pipeline is, at the slots of one tenant, a run of the in-flight
cap alone: an await of a worker acquires a slot, releases one or leaves them as
they are, and what crashed workers leave behind is never released.
-/

namespace Relay

open RateLimit Worker Api Transition

/-- When the handling began, as its local variables have it. -/
def Worker.Pc.began : Pc → Option ℚ
  | .loadDelivery now | .loadEndpoint now _ => some now
  | .acquireLock v | .deferWaiting v _ => some v.now
  | pc => pc.past.map Locals.now

/-- What an await does to the slots, and to the one of its call. -/
inductive Worker.Pc.Slots (clock : ℚ) (c : Choice) (s s' : Store) (pc pc' : Pc) : Prop
  | asks {v : Locals} {cap : Nat} {granted : Bool} (before : pc = .acquireSlot v cap)
      (answer : s.acquireSlot v.endpoint.tenantId cap clock v.now c.token = (s', granted))
      (after : pc'.occupying = if granted then some (v.endpoint.tenantId, c.token) else none)
  | frees {tenantId token : Uuid} (before : pc.occupying = some (tenantId, token))
      (released : s' = s.releaseSlot tenantId token) (after : pc'.occupying = none)
  | keeps (same : s'.inflight = s.inflight) (after : pc'.occupying = pc.occupying)

section Step

variable {env : Env} {clock : ℚ} {c : Choice} {shard messageId : Nat} {id : Uuid}
  {s s' : Store} {pc pc' : Pc}

theorem Worker.Pc.step_slots (h : pc.step env clock c shard messageId id s = some (s', pc')) :
    Slots clock c s s' pc pc' := by
  cases pc with
  | acquireSlot v cap =>
    simp only [Pc.step] at h
    split at h
    all_goals
      rename_i answer
      cases h
      exact .asks rfl answer rfl
  | releaseSlot v slot acks =>
    cases h
    exact .frees rfl rfl (Pc.occupying_unlock v acks)
  | acquireLock v =>
    simp only [Pc.step] at h
    split at h
    · cases h
      exact .keeps rfl rfl
    · rename_i acquired
      cases h
      exact .keeps (Store.inflight_acquireLock acquired) rfl
  | releaseNotHead v =>
    cases h
    refine .keeps ?_ rfl
    split
    · exact Store.inflight_releaseLock _
    · rfl
  | releaseLock v token acks =>
    cases h
    exact .keeps (Store.inflight_releaseLock _) rfl
  | deferGated v dueAt =>
    cases h
    exact .keeps rfl (Pc.occupying_unlock v true)
  | takeToken v rate | allowRequest v =>
    simp only [Pc.step] at h
    split at h
    all_goals
      rename_i answer
      cases h
      exact .keeps (congrArg (fun a => a.1.inflight) answer).symm rfl
  | recordOutcome v slot time =>
    simp only [Pc.step] at h
    split at h
    · cases h
      exact .keeps rfl rfl
    · cases h
      exact .keeps rfl (Pc.occupying_afterOutcome v slot)
  | publishTrigger v slot event =>
    cases h
    exact .keeps rfl (Pc.occupying_afterOutcome v slot)
  | _ =>
    simp only [Pc.step] at h
    repeat' split at h
    all_goals
      cases h <;> exact .keeps rfl rfl

theorem Worker.Pc.began_unlock (v : Locals) (acks : Bool) : (Pc.unlock v acks).began = none := by
  unfold Pc.unlock
  split <;> rfl

theorem Worker.Pc.began_afterOutcome (v : Locals) (slot : Uuid) :
    (Pc.afterOutcome v slot).began = some v.now := by
  unfold Pc.afterOutcome
  split <;> rfl

theorem Worker.Pc.step_began (h : pc.step env clock c shard messageId id s = some (s', pc'))
    {time : ℚ} (began : pc'.began = some time) : pc.began = some time := by
  cases pc with
  | releaseSlot v slot acks | deferGated v dueAt =>
    cases h
    rw [began_unlock] at began
    cases began
  | recordOutcome v slot at_ =>
    simp only [Pc.step] at h
    split at h <;> cases h
    · exact began
    · rwa [began_afterOutcome] at began
  | publishTrigger v slot event =>
    cases h
    rwa [began_afterOutcome] at began
  | _ =>
    simp only [Pc.step] at h
    repeat' split at h
    all_goals
      cases h <;> first
        | exact began
        | cases began

theorem Worker.Pc.occupying_onRaise (pc : Pc) :
    pc.onRaise.occupying = pc.occupying ∨ pc.onRaise.occupying = none := by
  cases pc <;> first
    | exact Or.inr (Pc.occupying_unlock _ _)
    | exact Or.inl rfl
    | exact Or.inr rfl

theorem Worker.Pc.began_onRaise {time : ℚ} (began : pc.onRaise.began = some time) :
    pc.began = some time := by
  cases pc with
  | allowRequest v | getState v | disable v | loadTenant v | takeToken v _ | loadTenantAgain v
  | acquireSlot v _ | deferGated v _ =>
    rw [Pc.onRaise, began_unlock] at began
    cases began
  | _ => first | exact began | cases began

theorem Worker.Pc.step_tenants (h : pc.step env clock c shard messageId id s = some (s', pc')) :
    s'.db.tenants = s.db.tenants := by
  cases pc with
  | acquireLock v =>
    simp only [Pc.step] at h
    split at h <;> cases h
    · rfl
    · rename_i acquired
      unfold Store.acquireLock at acquired
      split at acquired <;> cases acquired
      rfl
  | releaseNotHead v =>
    cases h
    split
    · unfold Store.releaseLock
      split <;> rfl
    · rfl
  | releaseLock v token acks =>
    cases h
    unfold Store.releaseLock
    split <;> rfl
  | allowRequest v | takeToken v rate | acquireSlot v cap =>
    simp only [Pc.step] at h
    split at h
    all_goals
      rename_i answer
      cases h
      exact (congrArg (fun a => a.1.db.tenants) answer).symm
  | recordOutcome v slot time =>
    simp only [Pc.step] at h
    split at h <;> cases h <;> rfl
  | _ =>
    simp only [Pc.step] at h
    repeat' split at h
    all_goals
      cases h <;> rfl

end Step

/-- The cap that is asked for was just read. -/
theorem Worker.Pc.step_cap {env : Env} {clock : ℚ} {c : Choice}
    {shard messageId : Nat} {id : Uuid} {s s' : Store} {pc : Pc} {v : Locals} {cap : Nat}
    (h : pc.step env clock c shard messageId id s = some (s', .acquireSlot v cap)) :
    (s.db.tenant v.endpoint.tenantId).map (fun row =>
      orDefault row.maxInflight env.settings.defaultTenantMaxInflight) = some cap := by
  cases pc with
  | loadTenantAgain v' =>
    simp only [Pc.step] at h
    split at h <;> cases h
    rename_i row found
    rw [found]
    rfl
  | releaseSlot v' slot acks | deferGated v' dueAt =>
    simp only [Pc.step, Pc.unlock] at h
    split at h <;> cases h
  | recordOutcome v' slot time =>
    simp only [Pc.step, Pc.afterOutcome] at h
    repeat' split at h
    all_goals cases h
  | publishTrigger v' slot event =>
    simp only [Pc.step, Pc.afterOutcome] at h
    split at h <;> cases h
  | _ =>
    simp only [Pc.step] at h
    repeat' split at h
    all_goals cases h

namespace World

variable {env : Env} {l : Label} {x y : World} {t : Uuid} {cap : Nat}

/-- How a handling came about in a step that is not its own work. -/
inductive Left (x : World) (w : Nat) (h : Handling) : Prop
  | same (old : x.Handles w h)
  | begun (pc : h.pc = .loadDelivery x.clock) (now : h.startedAt = x.clock)
  | raised {old : Handling} (handled : x.Handles w old)
      (now : h = { old with pc := old.pc.onRaise })

theorem Change.left (change : Change env x y l) (other : ∀ w c, l ≠ .work w c) {w : Nat}
    {h : Handling} (handles : y.Handles w h) : Left x w h := by
  cases change.arises handles with
  | same old _ => exact .same old
  | begun _ _ begun =>
    subst begun
    exact .begun rfl rfl
  | moved label => exact absurd label (other _ _)
  | raised label _ _ _ =>
    subst label
    cases change with
    | admin label => exact label.elim
    | raise _ handled _ workers _ =>
      obtain ⟨_, now⟩ := goto_current.mp ((handles_update_self workers).mp handles)
      exact .raised handled now
    | drop label _ _ empty _ workers _ =>
      rcases label with same | same <;> cases same
      have now := (handles_update_self workers).mp handles
      simp [Consumer.held, now] at empty

/-- The local variables know when the handling began. -/
structure Timed (x : World) : Prop where
  began : ∀ w h time, x.Handles w h → h.pc.began = some time → time = h.startedAt
  started : ∀ w h, x.Handles w h → h.startedAt ≤ x.clock

theorem not_handles_initial {shardOf : Nat → Nat} {w : Nat} {h : Handling} :
    ¬ (initial shardOf).Handles w h := by
  intro handles
  cases handles

theorem timed_initial (shardOf : Nat → Nat) : Timed (initial shardOf) where
  began := fun _ _ _ handles => absurd handles not_handles_initial
  started := fun _ _ handles => absurd handles not_handles_initial

theorem Timed.step (timed : Timed x) (change : Change env x y l) : Timed y := by
  have later := change.clock_le
  refine ⟨fun w h time handles began => ?_, fun w h handles => ?_⟩
  · by_cases working : ∃ w c, l = .work w c
    · cases change.arises handles with
      | same old _ => exact timed.began w h time old began
      | begun label =>
        obtain ⟨w', c, rfl⟩ := working
        cases label
      | raised label =>
        obtain ⟨w', c, rfl⟩ := working
        cases label
      | moved _ handled step _ kept =>
        rw [kept.2.2]
        exact timed.began w _ time handled (Pc.step_began step began)
    · cases change.left (fun w c same => working ⟨w, c, same⟩) handles with
      | same old => exact timed.began w h time old began
      | begun pc now =>
        rw [pc] at began
        rw [now]
        exact (Option.some.inj began).symm
      | @raised old handled now =>
        subst now
        have before : old.pc.began = some time := Pc.began_onRaise began
        exact timed.began w old time handled before
  · cases change.arises handles with
    | same old _ => exact (timed.started w h old).trans later
    | begun _ _ begun => exact begun ▸ later
    | moved _ handled _ _ kept | raised _ handled _ kept =>
      rw [kept.2.2]
      exact (timed.started w _ handled).trans later

/-- A limit of the tenant, as its row has it. -/
def limitOf (pick : Tenant → Nat) (x : World) (t : Uuid) : Option Nat :=
  (x.store.db.tenant t).map pick

/-- Tenants and their limits stay. -/
theorem step_tenants (next : World.step env l x = some y) :
    x.store.db.tenants <+: y.store.db.tenants := by
  by_cases working : ∃ w c, l = .work w c
  · obtain ⟨w, c, rfl⟩ := working
    simp only [World.step, stepWork] at next
    repeat' split at next
    all_goals cases next
    rename_i step
    exact Pc.step_tenants step ▸ List.prefix_refl _
  · by_cases tenant : ∃ t, l = .createTenant t
    · obtain ⟨t, rfl⟩ := tenant
      simp only [World.step, stepCreateTenant] at next
      split at next <;> cases next
      exact List.prefix_append _ _
    · have same := congrArg Prod.snd (step_limits next (fun w c same => working ⟨w, c, same⟩)
        (fun t same => tenant ⟨t, same⟩))
      exact (show y.store.db.tenants = x.store.db.tenants from same) ▸ List.prefix_refl _

theorem limitOf_step {pick : Tenant → Nat} {n : Nat} (next : World.step env l x = some y)
    (known : x.limitOf pick t = some n) : y.limitOf pick t = some n := by
  obtain ⟨row, found, rfl⟩ := Option.map_eq_some_iff.mp known
  obtain ⟨more, tenants⟩ := step_tenants next
  refine Option.map_eq_some_iff.mpr ⟨row, ?_, rfl⟩
  unfold Db.tenant
  rw [← tenants]
  exact Table.get_append_of_some more found

/-- Who asks with a limit asks with that of the tenant. -/
def Reads (asks : Pc → Option (Uuid × Nat)) (pick : Tenant → Nat) (x : World) : Prop :=
  ∀ w h t n, x.Handles w h → asks h.pc = some (t, n) → x.limitOf pick t = some n

/-- The limit that is asked with was just read. -/
structure JustRead (env : Env) (asks : Pc → Option (Uuid × Nat))
    (pick : Tenant → Nat) : Prop where
  read : ∀ {clock : ℚ} {c : Choice} {shard messageId : Nat} {id : Uuid} {s s' : Store}
    {pc pc' : Pc} {t : Uuid} {n : Nat},
    pc.step env clock c shard messageId id s = some (s', pc') →
      asks pc' = some (t, n) → (s.db.tenant t).map pick = some n
  begun : ∀ now, asks (.loadDelivery now) = none
  raised : ∀ pc : Pc, asks pc.onRaise = none

theorem Reads.step {asks : Pc → Option (Uuid × Nat)} {pick : Tenant → Nat}
    (reads : Reads asks pick x) (just : JustRead env asks pick)
    (next : World.step env l x = some y) : Reads asks pick y := by
  have change := step_change next
  intro w h t n handles asking
  refine limitOf_step next ?_
  by_cases working : ∃ w c, l = .work w c
  · cases change.arises handles with
    | same old _ => exact reads w h t n old asking
    | begun label =>
      obtain ⟨w', c, rfl⟩ := working
      cases label
    | raised label =>
      obtain ⟨w', c, rfl⟩ := working
      cases label
    | moved _ _ step _ _ => exact just.read step asking
  · cases change.left (fun w c same => working ⟨w, c, same⟩) handles with
    | same old => exact reads w h t n old asking
    | begun pc _ =>
      rw [pc, just.begun] at asking
      cases asking
    | @raised old _ now =>
      subst now
      exact nomatch (just.raised old.pc).symm.trans asking

end World

def Worker.Pc.capAsked : Pc → Option (Uuid × Nat)
  | .acquireSlot v cap => some (v.endpoint.tenantId, cap)
  | _ => none

def Worker.Env.cap (env : Env) (row : Tenant) : Nat :=
  orDefault row.maxInflight env.settings.defaultTenantMaxInflight

theorem Worker.Pc.capAsked_unlock (v : Locals) (acks : Bool) :
    (Pc.unlock v acks).capAsked = none := by
  unfold Pc.unlock
  split <;> rfl

theorem Worker.Pc.cap_read (env : Env) : World.JustRead env Pc.capAsked env.cap where
  read := fun {clock c shard messageId id s s' pc pc' t n} h asks => by
    cases pc' with
    | acquireSlot v cap =>
      cases asks
      exact Pc.step_cap h
    | _ => cases asks
  begun := fun _ => rfl
  raised := fun pc => by
    cases pc <;> first
      | exact capAsked_unlock _ _
      | rfl

end Relay
