import Relay.Lib.TokenBucket
import Relay.Pipeline.Slots
import Relay.Pipeline.UnderWay

/-!
# The bucket of a tenant in the pipeline

Only an await of `take_token` touches a bucket. Whoever attempts a delivery has
taken a token on its way, and takes it along until the attempt.
-/

namespace Relay

open RateLimit Worker Api Transition

/-! One call -/

section Call

variable {rate granted : Nat} {since clock now : ℚ} {b : Option (Expiring Bucket)}

/-- What is found in a bucket: no debt, and its key lives a minute longer than the call. -/
structure RateLimit.Kept (clock : ℚ) (k : Expiring Bucket) : Prop where
  nonneg : 0 ≤ k.value.tokens
  lives : k.value.updatedAt + bucketTtl ≤ k.deadline
  past : k.value.updatedAt ≤ clock

/-- The tokens that were granted from `since` on were due by then. -/
def RateLimit.Due (rate : Nat) (since : ℚ) (granted : Nat) : Option (Expiring Bucket) → Prop
  | none => granted = 0
  | some k => TokenBucket.Credit (rate : ℚ) rate since granted k.value.tokens k.value.updatedAt

/-- A call in order, by a worker that was less than a minute on its way, finds what a bucket
that never expires would hold. -/
theorem RateLimit.Due.found (due : Due rate since granted b) (kept : ∀ k ∈ b, Kept clock k)
    (ordered : ∀ k ∈ b, k.value.updatedAt ≤ now) (inside : since ≤ now)
    (swift : clock + 1 ≤ now + bucketTtl) :
    ∃ tokens u : ℚ, TokenBucket.Credit (rate : ℚ) rate since granted tokens u ∧
      max since u ≤ now ∧
      min (rate : ℚ) (((Expiring.live clock b).getD ⟨rate, now⟩).tokens +
        max 0 (now - ((Expiring.live clock b).getD ⟨rate, now⟩).updatedAt) * rate) =
          TokenBucket.refilled (rate : ℚ) rate tokens u now := by
  have full : (0 : ℚ) ≤ rate := Nat.cast_nonneg rate
  cases b with
  | none =>
    have none : granted = 0 := due
    refine ⟨rate, now, ?_, max_le inside le_rfl, ?_⟩
    · rw [none, Nat.cast_zero]
      exact TokenBucket.Credit.start full full
    · simp [TokenBucket.refilled]
  | some k =>
    have stored := kept k rfl
    have order := ordered k rfl
    refine ⟨k.value.tokens, k.value.updatedAt, due, max_le inside order, ?_⟩
    by_cases live : clock ≤ k.deadline
    · rw [Expiring.live_some live, Option.getD_some, max_eq_right (sub_nonneg.mpr order)]
      rfl
    · have expired : Expiring.live clock (some k) = none := if_pos (not_le.mp live)
      have second : (rate : ℚ) ≤ (now - k.value.updatedAt) * rate :=
        le_mul_of_one_le_left full (by linarith [stored.lives])
      have filled : TokenBucket.refilled (rate : ℚ) rate k.value.tokens k.value.updatedAt now =
          rate := min_eq_left (by linarith [stored.nonneg])
      rw [filled, expired]
      simp

theorem RateLimit.Due.takeToken (due : Due rate since granted b) (kept : ∀ k ∈ b, Kept clock k)
    (ordered : ∀ k ∈ b, k.value.updatedAt ≤ now) (inside : since ≤ now)
    (swift : clock + 1 ≤ now + bucketTtl) :
    Due rate since
      (if (RateLimit.takeToken b clock rate now).2 then granted + 1 else granted)
      (RateLimit.takeToken b clock rate now).1 := by
  have full : (0 : ℚ) ≤ rate := Nat.cast_nonneg rate
  obtain ⟨tokens, u, credit, before, found⟩ := due.found kept ordered inside swift
  rw [takeToken_eq found]
  by_cases enough : 1 ≤ TokenBucket.refilled (rate : ℚ) rate tokens u now
  · have spent := credit.spend full before enough
    rw [if_pos enough, if_pos rfl]
    simpa only [Due, Nat.cast_add, Nat.cast_one] using spent
  · have nothing : (0 : ℚ) ≤ TokenBucket.refilled (rate : ℚ) rate tokens u now := by
      have refill : 0 ≤ (now - u) * (rate : ℚ) :=
        mul_nonneg (sub_nonneg.mpr (le_trans (le_max_right since u) before)) full
      exact le_min full (by linarith [credit.nonneg])
    have looked := credit.spend full before nothing
    rw [if_neg enough, if_neg Bool.false_ne_true]
    simpa only [Due, add_zero, sub_zero] using looked

theorem RateLimit.Due.granted_le {t : ℚ} (due : Due rate since granted b)
    (past : ∀ k ∈ b, k.value.updatedAt ≤ t) (inside : since ≤ t) :
    (granted : ℚ) ≤ rate * (1 + (t - since)) := by
  have full : (0 : ℚ) ≤ rate := Nat.cast_nonneg rate
  have share : (rate : ℚ) * (1 + (t - since)) = rate + rate * (t - since) := by ring
  rw [share]
  cases b with
  | none =>
    rw [show granted = 0 from due, Nat.cast_zero]
    exact add_nonneg full (mul_nonneg full (sub_nonneg.mpr inside))
  | some k => exact TokenBucket.Credit.spent_le due full full (max_le inside (past k rfl))

/-- A new window may be opened at any time. -/
theorem RateLimit.Due.opened (kept : ∀ k ∈ b, Kept clock k) : Due rate since 0 b := by
  have full : (0 : ℚ) ≤ rate := Nat.cast_nonneg rate
  cases b with
  | none => rfl
  | some k =>
    have opened : TokenBucket.Credit (rate : ℚ) rate since 0 k.value.tokens k.value.updatedAt :=
      TokenBucket.Credit.start full (kept k rfl).nonneg
    simpa only [Due, Nat.cast_zero] using opened

theorem RateLimit.kept_takeToken (kept : ∀ k ∈ b, Kept clock k) (early : now ≤ clock) :
    ∀ k ∈ (RateLimit.takeToken b clock rate now).1, Kept clock k := by
  have full : (0 : ℚ) ≤ rate := Nat.cast_nonneg rate
  have held : 0 ≤ ((Expiring.live clock b).getD ⟨rate, now⟩).tokens := by
    cases found : Expiring.live clock b with
    | none => exact full
    | some value =>
      obtain ⟨k, rfl, rfl, _⟩ := Expiring.stored_of_live found
      exact (kept k rfl).nonneg
  have refill :
      0 ≤ max 0 (now - ((Expiring.live clock b).getD ⟨rate, now⟩).updatedAt) * (rate : ℚ) :=
    mul_nonneg (le_max_left _ _) full
  have tokens := le_min full (add_nonneg held refill)
  have lives : now + bucketTtl ≤ clock + bucketTtl := by linarith
  intro k stored
  rw [takeToken_eq rfl] at stored
  split at stored
  · rename_i enough
    cases stored
    exact ⟨sub_nonneg.mpr enough, lives, early⟩
  · cases stored
    exact ⟨tokens, lives, early⟩

end Call

/-! What an await does -/

/-- The tenant whose token the call has taken and has not used yet. -/
def Worker.Pc.paid : Pc → Option Uuid
  | .loadTenantAgain v | .acquireSlot v _ | .reloadDelivery v _ | .reloadEndpoint v _
  | .loadEvent v _ | .commitDelivering v _ | .send v _ => some v.endpoint.tenantId
  | _ => none

def Worker.Pc.rateAsked : Pc → Option (Uuid × Nat)
  | .takeToken v rate => some (v.endpoint.tenantId, rate)
  | _ => none

def Worker.Env.rate (env : Env) (row : Tenant) : Nat :=
  orDefault row.ratePerSec env.settings.defaultTenantRatePerSec

inductive Worker.Pc.Takes (clock : ℚ) (s s' : Store) (pc pc' : Pc) : Prop
  | takes {v : Locals} {rate : Nat} {granted : Bool} (before : pc = .takeToken v rate)
      (answer : s.takeToken v.endpoint.tenantId rate clock v.now = (s', granted))
      (after : pc'.paid = if granted then some v.endpoint.tenantId else none)
  | keeps (same : s'.buckets = s.buckets) (after : ∀ t, pc'.paid = some t → pc.paid = some t)

theorem Worker.Pc.paid_unlock (v : Locals) (acks : Bool) : (Pc.unlock v acks).paid = none := by
  unfold Pc.unlock
  split <;> rfl

theorem Worker.Pc.paid_afterOutcome (v : Locals) (slot : Uuid) :
    (Pc.afterOutcome v slot).paid = none := by
  unfold Pc.afterOutcome
  split <;> rfl

theorem Worker.Pc.session_paid {pc : Pc} {t : Uuid} (paid : pc.paid = some t) :
    ∃ d e, pc.session = .gated d e ∨ pc.session = .sending d e := by
  cases pc with
  | loadTenantAgain v | acquireSlot v _ | reloadDelivery v _ | reloadEndpoint v _ | loadEvent v _
  | commitDelivering v _ => exact ⟨v.delivery, v.endpoint, Or.inl rfl⟩
  | send v _ => exact ⟨v.delivery, v.endpoint, Or.inr rfl⟩
  | _ => cases paid

section Step

variable {env : Env} {clock : ℚ} {c : Choice} {shard messageId : Nat} {id : Uuid}
  {s s' : Store} {pc pc' : Pc}

theorem Worker.Pc.Takes.unpaid (same : s'.buckets = s.buckets) (after : pc'.paid = none) :
    Takes clock s s' pc pc' :=
  .keeps same (fun t on => absurd (after.symm.trans on) (Option.some_ne_none t).symm)

theorem Worker.Pc.step_takes (h : pc.step env clock c shard messageId id s = some (s', pc')) :
    Takes clock s s' pc pc' := by
  cases pc with
  | takeToken v rate =>
    simp only [Pc.step] at h
    split at h
    all_goals
      rename_i answer
      cases h
    · exact .takes rfl answer rfl
    · exact .takes rfl answer rfl
  | acquireLock v =>
    simp only [Pc.step] at h
    split at h <;> cases h
    · exact .unpaid rfl rfl
    · rename_i acquired
      refine .unpaid ?_ rfl
      unfold Store.acquireLock at acquired
      split at acquired <;> cases acquired
      rfl
  | releaseNotHead v =>
    cases h
    refine .unpaid ?_ rfl
    split
    · unfold Store.releaseLock
      split <;> rfl
    · rfl
  | releaseLock v token acks =>
    cases h
    refine .unpaid ?_ rfl
    unfold Store.releaseLock
    split <;> rfl
  | releaseSlot v slot acks =>
    cases h
    exact .unpaid rfl (paid_unlock v acks)
  | deferGated v dueAt =>
    cases h
    exact .unpaid rfl (paid_unlock v true)
  | allowRequest v =>
    simp only [Pc.step] at h
    split at h
    all_goals
      rename_i answer
      cases h
      exact .unpaid (congrArg (fun a => a.1.buckets) answer).symm rfl
  | acquireSlot v cap =>
    simp only [Pc.step] at h
    split at h
    · rename_i answer
      cases h
      exact .keeps (congrArg (fun a => a.1.buckets) answer).symm (fun _ on => on)
    · rename_i answer
      cases h
      exact .unpaid (congrArg (fun a => a.1.buckets) answer).symm rfl
  | recordOutcome v slot time =>
    simp only [Pc.step] at h
    split at h <;> cases h
    · exact .unpaid rfl rfl
    · exact .unpaid rfl (paid_afterOutcome _ _)
  | publishTrigger v slot event =>
    cases h
    exact .unpaid rfl (paid_afterOutcome v slot)
  | _ =>
    simp only [Pc.step] at h
    repeat' split at h
    all_goals
      cases h <;> first
        | exact .keeps rfl (fun _ on => on)
        | exact .unpaid rfl rfl

/-- The rate that is asked with was just read. -/
theorem Worker.Pc.rate_read (env : Env) : World.JustRead env Pc.rateAsked env.rate where
  read := fun {clock c shard messageId id s s' pc pc' t n} h asks => by
    cases pc' with
    | takeToken v rate =>
      cases asks
      cases pc with
      | loadTenant v' =>
        simp only [Pc.step] at h
        split at h <;> cases h
        rename_i row found
        rw [found]
        rfl
      | releaseSlot v' slot acks | deferGated v' dueAt =>
        simp only [Pc.step, Pc.unlock] at h
        split at h <;> cases h
      | recordOutcome v' slot time =>
        simp only [Pc.step, Pc.afterOutcome] at h
        repeat' split at h
        all_goals cases h
      | publishTrigger v' slot event =>
        simp only [Pc.step, Pc.afterOutcome] at h
        split at h <;> cases h
      | _ =>
        simp only [Pc.step] at h
        repeat' split at h
        all_goals cases h
    | _ => cases asks
  begun := fun _ => rfl
  raised := fun pc => by
    cases pc with
    | allowRequest v | getState v | disable v | loadTenant v | takeToken v _ | loadTenantAgain v
    | acquireSlot v _ | deferGated v _ =>
      simp only [Pc.onRaise, Pc.unlock]
      split <;> rfl
    | _ => rfl

end Step

end Relay
