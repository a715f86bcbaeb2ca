import Relay.Pipeline.Buckets
import Relay.Pipeline.Schedule

/-!
# No tenant's deliveries are attempted faster than its rate

In any stretch of a run, the attempts for a tenant are those whose token had been
taken before it, and what the rate allows in that time and one second more. The
calls to the bucket must come in the order in which the handlings began.
-/

namespace Relay.World

open RateLimit Worker Transition

variable {env : Env} {l : Label} {x y : World} {t : Uuid} {w rate granted bound : Nat}
  {v : Locals} {since : ℚ}

/-- The attempts at deliveries to endpoints of the tenant. -/
def attemptsFor (x : World) (t : Uuid) : Nat :=
  x.core.log.countP (attemptIn fun id =>
    decide ((x.core.delivery id).bind (fun d => x.store.db.owner d.endpointId) = some t))

/-- The worker has taken a token of the tenant for an attempt to come. -/
def Paid (x : World) (t : Uuid) (w : Nat) : Prop := ∃ h, x.Handles w h ∧ h.pc.paid = some t

/-- The step calls the bucket of the tenant. -/
structure Calls (x : World) (t : Uuid) (l : Label) (w : Nat) (v : Locals) (rate : Nat) : Prop where
  label : ∃ c, l = .work w c
  asks : ∃ h, x.Handles w h ∧ h.pc = .takeToken v rate
  own : v.endpoint.tenantId = t

/-- The tenant's bucket is called in the order in which the handlings began, by workers
that took less than a minute from there. -/
def BucketInOrder (t : Uuid) (x : World) (l : Label) : Prop :=
  ∀ w v rate, x.Calls t l w v rate → x.clock + 1 ≤ v.now + bucketTtl ∧
    ∀ k ∈ x.store.buckets t, k.value.updatedAt ≤ v.now

/-- What holds in every reachable state. -/
structure Banked (env : Env) (x : World) : Prop where
  inv : Consistent env x
  tenanted : Tenanted env x
  timed : Timed x
  reads : Reads Pc.rateAsked env.rate x
  kept : ∀ t, ∀ k ∈ x.store.buckets t, Kept x.clock k

theorem banked_initial (env : Env) (shardOf : Nat → Nat) : Banked env (initial shardOf) where
  inv := consistent_initial env shardOf
  tenanted := tenanted_initial env shardOf
  timed := timed_initial shardOf
  reads := fun _ _ _ _ handles => absurd handles not_handles_initial
  kept := fun _ _ stored => nomatch stored

/-- A call passes the time at which its handling began. -/
theorem Timed.asks (timed : Timed x) {w : Nat} {h : Handling} {v : Locals}
    (handles : x.Handles w h) (asks : h.pc = .takeToken v rate) :
    v.now = h.startedAt ∧ v.now ≤ x.clock := by
  have began : v.now = h.startedAt := timed.began w h v.now handles (by rw [asks]; rfl)
  exact ⟨began, began ▸ timed.started w h handles⟩

theorem Calls.buckets (calls : x.Calls t l w v rate) (next : World.step env l x = some y) :
    y.store.buckets t = (RateLimit.takeToken (x.store.buckets t) x.clock rate v.now).1 := by
  obtain ⟨⟨c, rfl⟩, ⟨h, handles, asks⟩, rfl⟩ := calls
  cases step_change next with
  | admin label => exact label.elim
  | drop label => rcases label with same | same <;> cases same
  | @work _ _ h' pc _ handles' step _ _ _ =>
    cases handles.symm.trans handles'
    rw [asks] at step
    simp only [Pc.step] at step
    split at step
    all_goals
      rename_i called
      cases step
      rw [← congrArg (fun a => a.1.buckets) called]
      exact Function.update_self _ _ _

theorem buckets_rest (next : World.step env l x = some y)
    (calm : ∀ w v rate, ¬ x.Calls t l w v rate) : y.store.buckets t = x.store.buckets t := by
  by_cases working : ∃ w c, l = .work w c
  · obtain ⟨w, c, rfl⟩ := working
    cases step_change next with
    | admin label => exact label.elim
    | drop label => rcases label with same | same <;> cases same
    | @work _ _ h pc _ handles step _ _ _ =>
      cases Pc.step_takes step with
      | keeps same => exact congrFun same t
      | @takes v rate granted before answer =>
        have other : t ≠ v.endpoint.tenantId := fun own =>
          calm w v rate ⟨⟨c, rfl⟩, ⟨h, handles, before⟩, own.symm⟩
        rw [← congrArg (fun a => a.1.buckets) answer]
        exact Function.update_of_ne other _ _
  · have same := step_transient next (fun w c same => working ⟨w, c, same⟩)
    exact congrFun (congrArg (fun s => s.2.1) same) t

theorem Banked.step (banked : Banked env x) (next : World.step env l x = some y) :
    Banked env y := by
  have change := step_change next
  refine ⟨banked.inv.step change, banked.tenanted.step banked.inv next, banked.timed.step change,
    banked.reads.step (Pc.rate_read env) next, fun t k stored => ?_⟩
  have older : ∀ {k : Expiring Bucket}, Kept x.clock k → Kept y.clock k :=
    fun kept => ⟨kept.nonneg, kept.lives, kept.past.trans change.clock_le⟩
  by_cases calls : ∃ w v rate, x.Calls t l w v rate
  · obtain ⟨w, v, rate, calls⟩ := calls
    obtain ⟨h, handles, asks⟩ := calls.asks
    rw [calls.buckets next] at stored
    exact older (kept_takeToken (banked.kept t) (banked.timed.asks handles asks).2 k stored)
  · rw [buckets_rest next (fun w v rate on => calls ⟨w, v, rate, on⟩)] at stored
    exact older (banked.kept t k stored)

theorem banked_run {guard : World → Label → Prop} {shardOf : Nat → Nat}
    (run : Run (World.step env) guard (initial shardOf) x) : Banked env x :=
  run.invariant (banked_initial env shardOf) (fun banked _ next => banked.step next)

/-- Who has a token after a step had it before, or has just been given it. -/
theorem Paid.before (change : Change env x y l) (paid : y.Paid t w) :
    x.Paid t w ∨ ∃ v rate, x.Calls t l w v rate ∧
      (RateLimit.takeToken (x.store.buckets t) x.clock rate v.now).2 = true := by
  obtain ⟨h, handles, has⟩ := paid
  cases change.arises handles with
  | same old _ => exact Or.inl ⟨h, old, has⟩
  | begun _ _ begun =>
    rw [begun] at has
    cases has
  | raised _ _ leaving _ =>
    obtain ⟨d, e, on | on⟩ := Pc.session_paid has <;> exact nomatch on.symm.trans leaving
  | @moved c old label handled step _ _ =>
    cases Pc.step_takes step with
    | keeps _ after => exact Or.inl ⟨old, handled, after t has⟩
    | @takes v rate granted before answer after =>
      rw [after] at has
      cases granted with
      | false => cases has
      | true =>
        cases has
        exact Or.inr ⟨v, rate, ⟨⟨c, label⟩, ⟨old, handled, before⟩, rfl⟩,
          congrArg Prod.snd answer⟩

/-- A step attempts a delivery of the tenant only by a worker that has its token. -/
theorem Banked.attempts (banked : Banked env x) (next : World.step env l x = some y) :
    y.attemptsFor t = x.attemptsFor t ∨
      ∃ w c, l = .work w c ∧ x.Paid t w ∧ ¬ y.Paid t w ∧
        y.attemptsFor t = x.attemptsFor t + 1 := by
  have change := step_change next
  have keeps := step_keeps next
  have stable : ∀ id d, x.core.delivery id = some d →
      decide ((y.core.delivery id).bind (fun d => y.store.db.owner d.endpointId) = some t) =
        decide ((x.core.delivery id).bind (fun d => x.store.db.owner d.endpointId) = some t) := by
    intro id d found
    obtain ⟨d', found', _, endpoint⟩ := change.extends.rows found
    obtain ⟨t', _, owner⟩ := banked.tenanted.pairs (d.eventId, d.endpointId)
      (List.mem_map_of_mem (Table.get_mem found))
    rw [found, found', Option.bind_some, Option.bind_some, endpoint, owner, keeps.owner owner]
  rcases change.attemptsIn banked.inv stable with same |
    ⟨w, c, h, d, e, label, handles, sends, mine, one⟩
  · exact Or.inl same
  · have there := handles.sends_to banked.inv change sends
    obtain ⟨row, found, same⟩ := Option.map_eq_some_iff.mp there
    have owner : y.store.db.owner e.id = some e.tenantId :=
      keeps.owner (banked.tenanted.copies w h e handles (by rw [sends]; rfl))
    have own : e.tenantId = t := by
      have paid := of_decide_eq_true mine
      rw [found, Option.bind_some, same, owner] at paid
      exact Option.some.inj paid
    refine Or.inr ⟨w, c, label, ⟨h, handles, ?_⟩, ?_, one⟩
    · cases pc : h.pc with
      | send v slot =>
        rw [pc] at sends
        cases sends
        exact congrArg some own
      | _ =>
        rw [pc] at sends
        cases sends
    · rintro ⟨h', handles', has⟩
      have past := not_handles_sent change label handles sends handles'
      obtain ⟨d', e', on | on⟩ := Pc.session_paid has <;> exact nomatch on.symm.trans past

/-- Since the start of the stretch, the attempts for the tenant and the tokens at hand are
at most those at the start and what was granted, and all of that was due. -/
structure Paced (env : Env) (t : Uuid) (rate : Nat) (since : ℚ) (bound : Nat) (x : World) :
    Prop where
  begun : ∀ w h, x.Handles w h → since ≤ h.startedAt
  now : since ≤ x.clock
  paid : (∀ n, x.limitOf env.rate t = some n → n = rate) →
    ∃ granted, Limited (fun x => x.Paid t) (fun x => x.attemptsFor t) (bound + granted) x ∧
      Due rate since granted (x.store.buckets t)

/-- Nobody is given a token of the tenant. -/
theorem Banked.limited (banked : Banked env x) (next : World.step env l x = some y)
    (limited : Limited (fun x => x.Paid t) (fun x => x.attemptsFor t) bound x)
    (refused : ∀ w v rate, x.Calls t l w v rate →
      (RateLimit.takeToken (x.store.buckets t) x.clock rate v.now).2 = false) :
    Limited (fun x => x.Paid t) (fun x => x.attemptsFor t) bound y := by
  refine limited.step (fun w paid => ?_) ?_
  · rcases paid.before (step_change next) with before | ⟨v, rate, calls, leave⟩
    · exact before
    · exact nomatch (refused w v rate calls).symm.trans leave
  · rcases banked.attempts next (t := t) with same | ⟨w, c, _, paid, left, one⟩
    · exact Or.inl same
    · exact Or.inr ⟨w, paid, left, one⟩

theorem Calls.unique {w' rate' : Nat} {v' : Locals} (calls : x.Calls t l w v rate)
    (calls' : x.Calls t l w' v' rate') : w' = w ∧ v' = v ∧ rate' = rate := by
  obtain ⟨⟨c, rfl⟩, ⟨h, handles, asks⟩, _⟩ := calls
  obtain ⟨⟨c', label⟩, ⟨h', handles', asks'⟩, _⟩ := calls'
  cases label
  cases handles.symm.trans handles'
  cases asks.symm.trans asks'
  exact ⟨rfl, rfl, rfl⟩

/-- One worker calls the tenant's bucket. -/
theorem Banked.called (banked : Banked env x) (calls : x.Calls t l w v rate)
    (next : World.step env l x = some y)
    (limited : Limited (fun x => x.Paid t) (fun x => x.attemptsFor t) (bound + granted) x)
    (due : Due rate since granted (x.store.buckets t)) (turn : BucketInOrder t x l)
    (inside : since ≤ v.now) :
    ∃ granted, Limited (fun x => x.Paid t) (fun x => x.attemptsFor t) (bound + granted) y ∧
      Due rate since granted (y.store.buckets t) := by
  obtain ⟨swift, ordered⟩ := turn w v rate calls
  have paid := due.takeToken (banked.kept t) ordered inside swift
  rw [← calls.buckets next] at paid
  cases leave : (RateLimit.takeToken (x.store.buckets t) x.clock rate v.now).2 with
  | false =>
    rw [leave] at paid
    refine ⟨granted, banked.limited next limited (fun w' v' rate' calls' => ?_), paid⟩
    obtain ⟨_, rfl, rfl⟩ := calls.unique calls'
    exact leave
  | true =>
    rw [leave] at paid
    refine ⟨granted + 1, limited.sets_out (w := w) (fun w' ne after => ?_) ?_, paid⟩
    · rcases after.before (step_change next) with before | ⟨v', rate', calls', _⟩
      · exact before
      · exact absurd (calls.unique calls').1 ne
    · rcases banked.attempts next (t := t) with same |
        ⟨w', c', rfl, ⟨h', handles', has⟩, _⟩
      · exact same
      · obtain ⟨⟨c, label⟩, ⟨h, handles, asks⟩, _⟩ := calls
        cases label
        cases handles.symm.trans handles'
        rw [asks] at has
        cases has

theorem Paced.step (banked : Banked env x) (paced : Paced env t rate since bound x)
    (turn : BucketInOrder t x l) (next : World.step env l x = some y) :
    Paced env t rate since bound y := by
  have change := step_change next
  obtain ⟨begun, now, paid⟩ := paced
  refine ⟨fun w h handles => ?_, now.trans change.clock_le, fun known => ?_⟩
  · cases change.arises handles with
    | same old _ => exact begun w h old
    | begun _ _ begun => exact begun ▸ now
    | moved _ handled _ _ kept | raised _ handled _ kept => exact kept.2.2 ▸ begun w _ handled
  · obtain ⟨granted, limited, due⟩ := paid (fun n same => known n (limitOf_step next same))
    by_cases calling : ∃ w v rate', x.Calls t l w v rate'
    · obtain ⟨w, v, rate', calls⟩ := calling
      obtain ⟨h, handles, asks⟩ := calls.asks
      have read := banked.reads w h t rate' handles (by rw [asks, ← calls.own]; rfl)
      obtain rfl : rate' = rate := known rate' (limitOf_step next read)
      have inside : since ≤ v.now := (banked.timed.asks handles asks).1 ▸ begun w h handles
      exact banked.called calls next limited due turn inside
    · have calm : ∀ w v rate', ¬ x.Calls t l w v rate' :=
        fun w v rate' calls => calling ⟨w, v, rate', calls⟩
      exact ⟨granted, banked.limited next limited
        (fun w v rate' calls => absurd calls (calm w v rate')),
        (buckets_rest next calm).symm ▸ due⟩

/-- From any reachable state `x` on, with every handling under way in it begun at `since`
or later: the attempts for a tenant in the run that follows are those whose token had
been taken, and what its rate allows from `since` to the end, and one second more. -/
theorem tenant_paced {guard : World → Label → Prop} {shardOf : Nat → Nat} {row : Tenant}
    {ws : Finset Nat} (start : Run (World.step env) guard (initial shardOf) x)
    (begun : ∀ w h, x.Handles w h → since ≤ h.startedAt) (now : since ≤ x.clock)
    (paid : ∀ w, x.Paid t w → w ∈ ws) (run : Run (World.step env) (BucketInOrder t) x y)
    (tenant : y.store.db.tenant t = some row) :
    (y.attemptsFor t : ℚ) ≤ x.attemptsFor t + ws.card +
      orDefault row.ratePerSec env.settings.defaultTenantRatePerSec * (1 + (y.clock - since)) := by
  have banked := banked_run start
  have both : Banked env y ∧
      Paced env t (env.rate row) since (x.attemptsFor t + ws.card) y := by
    refine run.invariant (I := fun y => Banked env y ∧
      Paced env t (env.rate row) since (x.attemptsFor t + ws.card) y)
        ⟨banked, begun, now, fun _ => ?_⟩
      (fun old turn next => ⟨old.1.step next, old.2.step old.1 turn next⟩)
    exact ⟨0, ⟨ws, paid, Nat.le_refl _⟩, Due.opened (banked.kept t)⟩
  have known : y.limitOf env.rate t = some (env.rate row) := by
    rw [limitOf, tenant]
    rfl
  obtain ⟨granted, limited, due⟩ :=
    both.2.paid (fun n same => Option.some.inj (same.symm.trans known))
  have made : (y.attemptsFor t : ℚ) ≤ x.attemptsFor t + ws.card + granted := by
    exact_mod_cast limited.attempts_le
  have due : (granted : ℚ) ≤ orDefault row.ratePerSec env.settings.defaultTenantRatePerSec *
      (1 + (y.clock - since)) :=
    due.granted_le (fun k stored => (both.1.kept t k stored).past) both.2.now
  linarith

/-! Two orders at once, and one token a second -/

def bucketInOrder (t : Uuid) (x : World) : Label → Bool
  | .work w _ =>
    match (x.workers w).current with
    | some ⟨_, _, _, .takeToken v _⟩ => decide (v.endpoint.tenantId = t →
        x.clock + 1 ≤ v.now + bucketTtl ∧
          ∀ k ∈ x.store.buckets t, k.value.updatedAt ≤ v.now)
    | _ => true
  | _ => true

theorem bucketInOrder_sound (checked : bucketInOrder t x l = true) : BucketInOrder t x l := by
  rintro w v rate ⟨⟨c, rfl⟩, ⟨⟨id, f, time, pc⟩, handles, rfl⟩, own⟩
  have current : (x.workers w).current = some ⟨id, f, time, .takeToken v rate⟩ := handles
  simp only [bucketInOrder, current] at checked
  exact of_decide_eq_true checked own

/-- The first order has its token. -/
def firstPaid : List Label :=
  [.createTenant { id := 2, ratePerSec := some 1 }, .createEndpoint shop] ++
    ingest 0 shop 10 30 ++ ingest 1 shop 11 31 ++ [.read 0, .take 0] ++ works 0 5 succeeding

/-- The second one is put off, and sent a second later. -/
def secondSent : List Label :=
  works 0 14 succeeding ++ [.read 0, .take 0] ++ works 0 8 succeeding ++
    [.tick 1, .schedule 1 500, .read 0, .take 0] ++ works 0 12 succeeding

theorem tenant_paced_second : ∃ x y : World,
    Run (World.step headerless) (fun _ _ => True) (initial (fun _ => 3)) x ∧
      Run (World.step headerless) (BucketInOrder 2) x y ∧ x.attemptsFor 2 = 0 ∧
      y.attemptsFor 2 = 2 ∧ y.clock = 1 ∧
      (y.attemptsFor 2 : ℚ) ≤ (0 : Nat) + (1 : Nat) + (1 : Nat) * (1 + (1 - 0)) := by
  have evaluates : (exec (World.step headerless) (fun _ _ => true) firstPaid
      (initial (fun _ => 3))).elim false (fun x =>
        decide (x.attemptsFor 2 = 0 ∧ 0 ≤ x.clock ∧
          ∀ h ∈ (x.workers 0).current, 0 ≤ h.startedAt) &&
        (exec (World.step headerless) (bucketInOrder 2) secondSent x).elim false
          (fun y => decide (y.attemptsFor 2 = 2 ∧ y.clock = 1 ∧
            (y.store.db.tenant 2).map Tenant.ratePerSec = some (some 1)))) = true := by
    decide +kernel
  obtain ⟨x, executed, passes⟩ := reached evaluates
  obtain ⟨here, later⟩ := Bool.and_eq_true_iff.mp passes
  obtain ⟨none, now, first⟩ := of_decide_eq_true here
  obtain ⟨y, executed', passes'⟩ := reached later
  obtain ⟨two, time, limit⟩ := of_decide_eq_true passes'
  obtain ⟨row, tenant, rate⟩ := Option.map_eq_some_iff.mp limit
  have start : Run (World.step headerless) (fun _ _ => True) (initial (fun _ => 3)) x ∧
      Untouched 1 2 x :=
    schedule_run (untouched_initial 1 2 _) (by decide) (fun _ _ _ => trivial) executed
  have run : Run (World.step headerless) (BucketInOrder 2) x y :=
    run_of_exec (fun _ _ => bucketInOrder_sound) executed'
  have only : ∀ {w h}, x.Handles w h → w = 0 := by
    intro w h handles
    have inside := start.2.handles handles
    omega
  have begun : ∀ w h, x.Handles w h → (0 : ℚ) ≤ h.startedAt := by
    intro w h handles
    obtain rfl := only handles
    exact first h handles
  have paid : ∀ w, x.Paid 2 w → w ∈ ({0} : Finset Nat) :=
    fun w has => Finset.mem_singleton.mpr (only has.choose_spec.1)
  have paced := tenant_paced start.1 begun now paid run tenant
  rw [rate, none, time] at paced
  exact ⟨x, y, start.1, run, none, two, time, paced⟩

end Relay.World
