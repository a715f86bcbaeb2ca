import Relay.Pipeline.Schedule
import Relay.Pipeline.Slots
import Mathlib.Data.Finset.Card

/-!
# No tenant has more in flight than its cap

The pipeline refines the in-flight cap of each tenant. So of the workers that
deliver for one tenant, no more than its cap began less than a minute ago,
however many workers there are and wherever they crash.
-/

namespace Relay.World

open RateLimit Worker Transition

variable {env : Env} {l : Label} {x y : World} {t : Uuid} {cap : Nat}

/-- `uuid4` draws the token of a slot: the tenant's set does not hold it, and no one
delivers with it. -/
def FreshSlots (x : World) : Label → Prop
  | .work w c => ∀ h v cap, x.Handles w h → h.pc = .acquireSlot v cap →
      ¬ x.store.Occupied v.endpoint.tenantId c.token ∧
        ∀ w' h', x.Handles w' h' → h'.pc.occupying ≠ some (v.endpoint.tenantId, c.token)
  | _ => True

/-- The worker holds this slot of the tenant. -/
def Occupies (x : World) (t : Uuid) (w : Nat) (h : Handling) (slot : Uuid) : Prop :=
  x.Handles w h ∧ h.pc.occupying = some (t, slot)

/-- A state of the cap alone with the tenant's slots, in which every slot that a
worker holds is outstanding. -/
structure Mirrors (t : Uuid) (x : World) (z : Capped) : Prop where
  slots : z.slots = x.store.inflight t
  clock : z.clock = x.clock
  outstanding : ∀ w h slot, x.Occupies t w h slot → (slot, h.startedAt) ∈ z.outstanding
  apart : ∀ w w' h h' slot, x.Occupies t w h slot → x.Occupies t w' h' slot → w = w'

theorem releaseSlot_absent {slots : Option (Expiring (ZSet Uuid))} {token : Uuid}
    (absent : ∀ k ∈ slots, ¬ k.value.Mem token) : releaseSlot slots token = slots := by
  cases slots with
  | none => rfl
  | some k =>
    have gone : k.value.zrem token = k.value := by
      refine ZSet.ext (List.filter_eq_self.mpr (fun e listed => decide_eq_true (fun same => ?_)))
      exact absent k rfl (ZSet.mem_iff.mpr ⟨e.2, same ▸ listed⟩)
    simp only [releaseSlot, Option.map_some, gone]

/-- A slot that is held after a step in which its worker did nothing was held before. -/
theorem Occupies.before (change : Change env x y l) {w : Nat} {h : Handling} {slot : Uuid}
    (holds : y.Occupies t w h slot) (other : ∀ c, l ≠ .work w c) :
    ∃ old, x.Occupies t w old slot ∧ old.startedAt = h.startedAt := by
  obtain ⟨handles, occupies⟩ := holds
  by_cases working : ∃ w c, l = .work w c
  · cases change.arises handles with
    | same old _ => exact ⟨h, ⟨old, occupies⟩, rfl⟩
    | begun label =>
      obtain ⟨w', c, rfl⟩ := working
      cases label
    | raised label =>
      obtain ⟨w', c, rfl⟩ := working
      cases label
    | moved label => exact absurd label (other _)
  · cases change.left (fun w c same => working ⟨w, c, same⟩) handles with
    | same old => exact ⟨h, ⟨old, occupies⟩, rfl⟩
    | begun pc _ =>
      rw [pc] at occupies
      cases occupies
    | @raised old handled now =>
      subst now
      rcases old.pc.occupying_onRaise with kept | gone
      · exact ⟨old, ⟨handled, kept.symm.trans occupies⟩, rfl⟩
      · exact nomatch gone.symm.trans occupies

/-- Of the slots at work only one changes hands, the one of the worker that stepped. -/
theorem Mirrors.worked {z z' : Capped} (mirrors : Mirrors t x z) (change : Change env x y l)
    {w : Nat} {c : Choice} (label : l = .work w c) (slots : z'.slots = y.store.inflight t)
    (clock : z'.clock = y.clock)
    (kept : ∀ w' h slot, w' ≠ w → x.Occupies t w' h slot →
      (slot, h.startedAt) ∈ z.outstanding → (slot, h.startedAt) ∈ z'.outstanding)
    (own : ∀ h slot, y.Occupies t w h slot → (slot, h.startedAt) ∈ z'.outstanding ∧
      ∀ w' h', w' ≠ w → ¬ x.Occupies t w' h' slot) : Mirrors t y z' := by
  have before : ∀ {w' h slot}, w' ≠ w → y.Occupies t w' h slot →
      ∃ old, x.Occupies t w' old slot ∧ old.startedAt = h.startedAt := by
    intro w' h slot ne holds
    refine holds.before change (fun c' same => ne ?_)
    rw [label] at same
    cases same
    rfl
  refine ⟨slots, clock, fun w' h slot holds => ?_,
    fun w₁ w₂ h₁ h₂ slot first second => ?_⟩
  · by_cases mine : w' = w
    · subst mine
      exact (own h slot holds).1
    · obtain ⟨old, held, same⟩ := before mine holds
      have listed := kept w' old slot mine held (mirrors.outstanding w' old slot held)
      rwa [same] at listed
  · by_cases mine₁ : w₁ = w
    · subst mine₁
      by_contra ne
      obtain ⟨old, held, _⟩ := before (Ne.symm ne) second
      exact (own h₁ slot first).2 w₂ old (Ne.symm ne) held
    · obtain ⟨old₁, held₁, _⟩ := before mine₁ first
      by_cases mine₂ : w₂ = w
      · subst mine₂
        exact absurd held₁ ((own h₂ slot second).2 w₁ old₁ mine₁)
      · obtain ⟨old₂, held₂, _⟩ := before mine₂ second
        exact mirrors.apart w₁ w₂ old₁ old₂ slot held₁ held₂

/-- The cap alone when a token is given back. -/
def released (z : Capped) (token : Uuid) : Capped :=
  { z with
    slots := RateLimit.releaseSlot z.slots token
    outstanding := z.outstanding.filter (fun e => e.1 ≠ token) }

/-- The cap alone when a slot is asked for. -/
def asked (cap : Nat) (z : Capped) (now : ℚ) (token : Uuid) : Capped :=
  { z with
    slots := (RateLimit.acquireSlot z.slots z.clock cap now token).1
    outstanding :=
      if (RateLimit.acquireSlot z.slots z.clock cap now token).2 then (token, now) :: z.outstanding
      else z.outstanding }

theorem released_run (z : Capped) (token : Uuid) :
    Run (Capped.step cap) Capped.NotAhead z (released z token) := by
  have admitted : z.NotAhead (.releaseSlot token) := trivial
  exact .tail .refl admitted rfl

/-- A token that no one has may be asked for again once it is given back. -/
theorem asked_run (z : Capped) {now : ℚ} (early : now ≤ z.clock) (token : Uuid) :
    Run (Capped.step cap) Capped.NotAhead z (asked cap (released z token) now token) := by
  have admitted : (released z token).NotAhead (.acquireSlot now token) := early
  refine .tail (released_run z token) admitted ?_
  have gone : token ∉ (released z token).outstanding.map Prod.fst := by
    intro listed
    obtain ⟨e, kept, same⟩ := List.mem_map.mp listed
    exact absurd same (of_decide_eq_true (List.mem_filter.mp kept).2)
  simp only [Capped.step, if_neg gone]
  rfl

theorem mem_asked {z : Capped} {now : ℚ} {token : Uuid} {e : Uuid × ℚ}
    (listed : e ∈ z.outstanding) : e ∈ (asked cap z now token).outstanding := by
  simp only [asked]
  split
  · exact List.mem_cons_of_mem _ listed
  · exact listed

theorem mem_released {z : Capped} {token : Uuid} {e : Uuid × ℚ} (listed : e ∈ z.outstanding)
    (other : e.1 ≠ token) : e ∈ (released z token).outstanding :=
  List.mem_filter.mpr ⟨listed, decide_eq_true other⟩

/-- What the worker that stepped holds afterwards. -/
theorem occupies_worked {w : Nat} {h : Handling} {pc : Pc}
    (workers : y.workers = Function.update x.workers w (Consumer.goto (x.workers w) h pc))
    {h' : Handling} {slot : Uuid} (holds : y.Occupies t w h' slot) :
    pc.occupying = some (t, slot) ∧ h'.startedAt = h.startedAt := by
  obtain ⟨_, rfl⟩ := goto_current.mp ((handles_update_self workers).mp holds.1)
  exact ⟨holds.2, rfl⟩

/-- An await that asks for a slot of the tenant. -/
theorem Mirrors.asks {z : Capped} {v : Locals} (mirrors : Mirrors v.endpoint.tenantId x z)
    (timed : Timed x) {w : Nat} {c : Choice} {h : Handling} {pc : Pc} {granted : Bool}
    (change : Change env x y (.work w c)) (handles : x.Handles w h)
    (workers : y.workers = Function.update x.workers w (Consumer.goto (x.workers w) h pc))
    (clock : y.clock = x.clock) (fresh : FreshSlots x (.work w c))
    (before : h.pc = .acquireSlot v cap)
    (answer : x.store.acquireSlot v.endpoint.tenantId cap x.clock v.now c.token =
      (y.store, granted))
    (after : pc.occupying = if granted then some (v.endpoint.tenantId, c.token) else none) :
    Run (Capped.step cap) Capped.NotAhead z (asked cap (released z c.token) v.now c.token) ∧
      Mirrors v.endpoint.tenantId y (asked cap (released z c.token) v.now c.token) := by
  have inflight := congrArg (fun a => a.1.inflight) answer
  have grants := congrArg Prod.snd answer
  simp only [Store.acquireSlot] at inflight grants
  obtain ⟨inNone, noOne⟩ := fresh h v cap handles before
  have began : v.now = h.startedAt := timed.began w h v.now handles (by rw [before]; rfl)
  have early : v.now ≤ z.clock := mirrors.clock ▸ began ▸ timed.started w h handles
  have absent : ∀ k ∈ z.slots, ¬ k.value.Mem c.token :=
    fun k stored member => inNone ⟨k, mirrors.slots ▸ stored, member⟩
  have same : (released z c.token).slots = x.store.inflight v.endpoint.tenantId :=
    (releaseSlot_absent absent).trans mirrors.slots
  have now : (released z c.token).clock = x.clock := mirrors.clock
  have slots : (asked cap (released z c.token) v.now c.token).slots =
      y.store.inflight v.endpoint.tenantId := by
    rw [← inflight, Function.update_self]
    simp only [asked, same]
    rw [now]
  have granted' : (RateLimit.acquireSlot (released z c.token).slots (released z c.token).clock
      cap v.now c.token).2 = granted := by
    rw [same, now]
    exact grants
  refine ⟨asked_run z early c.token, mirrors.worked change rfl slots
    (mirrors.clock.trans clock.symm) (fun w' h' slot _ held listed => ?_)
    (fun h' slot holds => ?_)⟩
  · refine mem_asked (mem_released listed (fun same => ?_))
    exact noOne w' h' held.1 (same ▸ held.2)
  · obtain ⟨occupies, began'⟩ := occupies_worked workers holds
    rw [after] at occupies
    cases granted with
    | false => cases occupies
    | true =>
      cases occupies
      refine ⟨?_, fun w' h'' _ there => noOne w' h'' there.1 there.2⟩
      have listed : (asked cap (released z c.token) v.now c.token).outstanding =
          (c.token, v.now) :: (released z c.token).outstanding := if_pos granted'
      rw [listed, began', ← began]
      exact List.mem_cons_self

/-- An await of a worker is at most two steps of the cap. -/
theorem Mirrors.work {z : Capped} (mirrors : Mirrors t x z) (timed : Timed x)
    (caps : Reads Pc.capAsked env.cap x)
    (known : ∀ cap', x.limitOf env.cap t = some cap' → cap' = cap) {w : Nat} {c : Choice}
    (change : Change env x y (.work w c)) (fresh : FreshSlots x (.work w c)) :
    ∃ z', Run (Capped.step cap) Capped.NotAhead z z' ∧ Mirrors t y z' := by
  cases change with
  | admin label => exact label.elim
  | drop label => rcases label with same | same <;> cases same
  | @work _ _ h pc clock handles step move workers requests =>
    have change : Change env x y (.work w c) :=
      .work clock handles step move workers requests
    cases Pc.step_slots step with
    | keeps same after =>
      have slots : z.slots = y.store.inflight t := by rw [same, mirrors.slots]
      refine ⟨z, .refl, mirrors.worked change rfl slots (mirrors.clock.trans clock.symm)
        (fun _ _ _ _ _ listed => listed) (fun h' slot holds => ?_)⟩
      obtain ⟨occupies, began⟩ := occupies_worked workers holds
      have held : x.Occupies t w h slot := ⟨handles, after ▸ occupies⟩
      refine ⟨began ▸ mirrors.outstanding w h slot held, fun w' h'' ne there => ne ?_⟩
      exact mirrors.apart w' w h'' h slot there held
    | @frees tenantId token before gone after =>
      have left : ∀ h' slot, ¬ y.Occupies t w h' slot := by
        intro h' slot holds
        have occupies := (occupies_worked workers holds).1
        rw [after] at occupies
        cases occupies
      by_cases mine : tenantId = t
      · subst mine
        have slots : (World.released z token).slots = y.store.inflight tenantId := by
          simp only [World.released, gone, Store.releaseSlot, Function.update_self, mirrors.slots]
        refine ⟨World.released z token, released_run z token, mirrors.worked change rfl slots
          (mirrors.clock.trans clock.symm) (fun w' h' slot ne held listed => ?_)
          (fun h' slot holds => absurd holds (left h' slot))⟩
        refine mem_released listed (fun same => ne ?_)
        have held' : x.Occupies tenantId w h slot := ⟨handles, by rw [before, ← same]⟩
        exact mirrors.apart w' w h' h slot held held'
      · have slots : z.slots = y.store.inflight t := by
          rw [gone, Store.releaseSlot, mirrors.slots]
          exact (Function.update_of_ne (Ne.symm mine) _ _).symm
        exact ⟨z, .refl, mirrors.worked change rfl slots (mirrors.clock.trans clock.symm)
          (fun _ _ _ _ _ listed => listed) (fun h' slot holds => absurd holds (left h' slot))⟩
    | @asks v cap' granted before answer after =>
      have inflight := congrArg (fun a => a.1.inflight) answer
      simp only [Store.acquireSlot] at inflight
      by_cases mine : v.endpoint.tenantId = t
      · subst mine
        cases known cap' (caps w h _ cap' handles (by rw [before]; rfl))
        exact ⟨_, mirrors.asks timed change handles workers clock fresh before answer after⟩
      · have slots : z.slots = y.store.inflight t := by
          rw [← inflight, mirrors.slots]
          exact (Function.update_of_ne (Ne.symm mine) _ _).symm
        refine ⟨z, .refl, mirrors.worked change rfl slots (mirrors.clock.trans clock.symm)
          (fun _ _ _ _ _ listed => listed) (fun h' slot holds => ?_)⟩
        have occupies := (occupies_worked workers holds).1
        rw [after] at occupies
        cases granted with
        | false => cases occupies
        | true =>
          cases occupies
          exact absurd rfl mine

/-- Every step is a run of the cap. -/
theorem Mirrors.step {z : Capped} (mirrors : Mirrors t x z) (timed : Timed x)
    (caps : Reads Pc.capAsked env.cap x)
    (known : ∀ cap', x.limitOf env.cap t = some cap' → cap' = cap) (fresh : FreshSlots x l)
    (next : World.step env l x = some y) :
    ∃ z', Run (Capped.step cap) Capped.NotAhead z z' ∧ Mirrors t y z' := by
  have change := step_change next
  by_cases working : ∃ w c, l = .work w c
  · obtain ⟨w, c, rfl⟩ := working
    exact mirrors.work timed caps known change fresh
  · have other : ∀ w c, l ≠ .work w c := fun w c same => working ⟨w, c, same⟩
    have inflight : y.store.inflight = x.store.inflight :=
      congrArg (fun s => s.2.2.1) (step_transient next other)
    have kept : ∀ {z' : Capped}, z'.outstanding = z.outstanding → z'.slots = z.slots →
        z'.clock = y.clock → Mirrors t y z' := by
      intro z' outstanding slots clock
      refine ⟨slots.trans (mirrors.slots.trans (congrFun inflight t).symm), clock,
        fun w h slot holds => ?_, fun w w' h h' slot first second => ?_⟩
      · obtain ⟨old, held, began⟩ := holds.before change (other w)
        rw [outstanding, ← began]
        exact mirrors.outstanding w old slot held
      · obtain ⟨old, held, _⟩ := first.before change (other w)
        obtain ⟨old', held', _⟩ := second.before change (other w')
        exact mirrors.apart w w' old old' slot held held'
    rcases change.clock with same | ⟨time, _, later, now⟩
    · exact ⟨z, .refl, kept rfl rfl (mirrors.clock.trans same.symm)⟩
    · have admitted : z.NotAhead (.tick time) := trivial
      have ticks : Capped.step cap (.tick time) z = some { z with clock := time } :=
        if_pos (mirrors.clock.symm ▸ later)
      exact ⟨_, .tail .refl admitted ticks, kept rfl rfl now.symm⟩

/-- The run so far is, at the slots of the tenant, a run of its cap. -/
structure Refines (env : Env) (t : Uuid) (cap : Nat) (x : World) : Prop where
  timed : Timed x
  caps : Reads Pc.capAsked env.cap x
  mirrored : (∀ cap', x.limitOf env.cap t = some cap' → cap' = cap) →
    ∃ z, Run (Capped.step cap) Capped.NotAhead (Capped.initial 0) z ∧ Mirrors t x z

theorem refines_initial (env : Env) (t : Uuid) (cap : Nat) (shardOf : Nat → Nat) :
    Refines env t cap (initial shardOf) where
  timed := timed_initial shardOf
  caps := fun _ _ _ _ handles => absurd handles not_handles_initial
  mirrored := fun _ => ⟨Capped.initial 0, .refl, rfl, rfl,
    fun _ _ _ holds => absurd holds.1 not_handles_initial,
    fun _ _ _ _ _ holds => absurd holds.1 not_handles_initial⟩

theorem Refines.step (refines : Refines env t cap x) (fresh : FreshSlots x l)
    (next : World.step env l x = some y) : Refines env t cap y := by
  refine ⟨refines.timed.step (step_change next), refines.caps.step (Pc.cap_read env) next,
    fun known => ?_⟩
  have before : ∀ cap', x.limitOf env.cap t = some cap' → cap' = cap :=
    fun cap' same => known cap' (limitOf_step next same)
  obtain ⟨z, run, mirrors⟩ := refines.mirrored before
  obtain ⟨z', more, mirrors'⟩ := mirrors.step refines.timed refines.caps before fresh next
  exact ⟨z', run.trans more, mirrors'⟩

/-- The slot of a worker, and when its handling began. -/
def slotOf (x : World) (w : Nat) : Uuid × ℚ :=
  match (x.workers w).current with
  | none => (0, 0)
  | some h => ((h.pc.occupying.map Prod.snd).getD 0, h.startedAt)

theorem Occupies.slotOf {w : Nat} {h : Handling} {slot : Uuid} (holds : x.Occupies t w h slot) :
    x.slotOf w = (slot, h.startedAt) := by
  have current : (x.workers w).current = some h := holds.1
  unfold World.slotOf
  rw [current]
  simp only [holds.2, Option.map_some, Option.getD_some]

/-- Of the workers that hold a slot of the tenant, no more than its cap began less
than a minute ago. -/
theorem tenant_capped {shardOf : Nat → Nat} {row : Tenant} {ws : Finset Nat}
    (run : Run (World.step env) FreshSlots (initial shardOf) x)
    (tenant : x.store.db.tenant t = some row)
    (young : ∀ w ∈ ws, ∃ h slot, x.Occupies t w h slot ∧
      x.clock < h.startedAt + slotTtlSeconds) :
    ws.card ≤ orDefault row.maxInflight env.settings.defaultTenantMaxInflight := by
  have refines : Refines env t
      (orDefault row.maxInflight env.settings.defaultTenantMaxInflight) x :=
    run.invariant (refines_initial env t _ shardOf) (fun old fresh next => old.step fresh next)
  have capped : x.limitOf env.cap t =
      some (orDefault row.maxInflight env.settings.defaultTenantMaxInflight) := by
    rw [limitOf, tenant]
    rfl
  obtain ⟨z, path, mirrors⟩ := refines.mirrored
    (fun cap' same => Option.some.inj (same.symm.trans capped))
  have tallied : z.Tallied _ := path.invariant (Capped.tallied_initial _ 0)
    (fun inv early next => inv.step early next)
  -- the workers hold different slots, all of them young
  have inside : ∀ w ∈ ws, x.slotOf w ∈ z.young := by
    intro w listed
    obtain ⟨h, slot, held, recent⟩ := young w listed
    rw [held.slotOf]
    exact Capped.mem_young.mpr ⟨mirrors.outstanding w h slot held, mirrors.clock ▸ recent⟩
  have fewer : ws.card ≤ z.young.toFinset.card := by
    refine Finset.card_le_card_of_injOn x.slotOf
      (fun w listed => List.mem_toFinset.mpr (inside w listed)) (fun w first w' second same => ?_)
    obtain ⟨h, slot, held, _⟩ := young w first
    obtain ⟨h', slot', held', _⟩ := young w' second
    rw [held.slotOf, held'.slotOf] at same
    obtain rfl : slot = slot' := congrArg Prod.fst same
    exact mirrors.apart w w' h h' slot held held'
  exact fewer.trans ((List.toFinset_card_le _).trans tallied.young_le)

/-! Two workers of a tenant that may have two -/

def drawsFresh (workers : Nat) (x : World) : Label → Bool
  | .work w c =>
    match (x.workers w).current with
    | some ⟨_, _, _, .acquireSlot v _⟩ =>
      (x.store.inflight v.endpoint.tenantId).all (fun k => decide (¬ k.value.Mem c.token)) &&
        (List.range workers).all (fun w' => (x.workers w').current.all (fun h =>
          decide (h.pc.occupying ≠ some (v.endpoint.tenantId, c.token))))
    | _ => true
  | _ => true

theorem drawsFresh_sound {n m : Nat} (untouched : Untouched n m x)
    (checked : drawsFresh n x l = true) : FreshSlots x l := by
  cases l with
  | work w c =>
    rintro ⟨id, f, time, pc⟩ v cap handles rfl
    have current : (x.workers w).current = some ⟨id, f, time, .acquireSlot v cap⟩ := handles
    simp only [drawsFresh, current] at checked
    obtain ⟨set, others⟩ := Bool.and_eq_true_iff.mp checked
    refine ⟨?_, fun w' h' handles' => ?_⟩
    · rintro ⟨k, stored, member⟩
      rw [Option.mem_def.mp stored] at set
      exact of_decide_eq_true set member
    · have below := List.all_eq_true.mp others w' (List.mem_range.mpr (untouched.handles handles'))
      rw [show (x.workers w').current = some h' from handles'] at below
      exact of_decide_eq_true below
  | _ => trivial

/-- Both workers are about to send for the tenant. -/
def bothSending : List Label :=
  [.createTenant { id := 2, maxInflight := some 2 }, .createEndpoint shop] ++
    ingest 0 shop 10 30 ++ ingest 1 shop 11 31 ++ [.read 0, .take 0, .read 1, .take 1] ++
    works 0 11 succeeding ++ works 1 11 erring

def occupied (x : World) (t : Uuid) (w : Nat) : Bool :=
  (x.workers w).current.any (fun h => decide (h.pc.occupying.map Prod.fst = some t ∧
    x.clock < h.startedAt + slotTtlSeconds))

theorem occupied_sound {w : Nat} (checked : occupied x t w = true) :
    ∃ h slot, x.Occupies t w h slot ∧ x.clock < h.startedAt + slotTtlSeconds := by
  unfold occupied at checked
  cases handles : (x.workers w).current with
  | none =>
    rw [handles] at checked
    cases checked
  | some h =>
    rw [handles] at checked
    obtain ⟨held, recent⟩ := of_decide_eq_true checked
    obtain ⟨⟨t', slot⟩, found, rfl⟩ := Option.map_eq_some_iff.mp held
    exact ⟨h, slot, ⟨handles, found⟩, recent⟩

theorem tenant_capped_two : ∃ x : World,
    Run (World.step headerless) FreshSlots (initial (fun _ => 3)) x ∧
      (∀ w ∈ ({0, 1} : Finset Nat), ∃ h slot, x.Occupies 2 w h slot ∧
        x.clock < h.startedAt + slotTtlSeconds) ∧ ({0, 1} : Finset Nat).card ≤ 2 := by
  have evaluates : (exec (World.step headerless) (drawsFresh 2) bothSending
      (initial (fun _ => 3))).elim false (fun x => occupied x 2 0 && occupied x 2 1 &&
        decide ((x.store.db.tenant 2).map Tenant.maxInflight = some (some 2))) = true := by
    decide +kernel
  obtain ⟨x, executed, passes⟩ := reached evaluates
  obtain ⟨both, limit⟩ := Bool.and_eq_true_iff.mp passes
  obtain ⟨first, second⟩ := Bool.and_eq_true_iff.mp both
  have sound : ∀ {x l}, Untouched 2 2 x → Within 2 2 l = true → drawsFresh 2 x l = true →
      FreshSlots x l := fun untouched _ => drawsFresh_sound untouched
  have run := (schedule_run (untouched_initial 2 2 _) (by decide) sound executed).1
  obtain ⟨row, tenant, cap⟩ := Option.map_eq_some_iff.mp (of_decide_eq_true limit)
  have young : ∀ w ∈ ({0, 1} : Finset Nat), ∃ h slot, x.Occupies 2 w h slot ∧
      x.clock < h.startedAt + slotTtlSeconds := by
    intro w listed
    rcases Finset.mem_insert.mp listed with rfl | listed
    · exact occupied_sound first
    · rw [Finset.mem_singleton.mp listed]
      exact occupied_sound second
  have capped := tenant_capped run tenant young
  rw [cap] at capped
  exact ⟨x, run, young, capped⟩

end Relay.World
