import Relay.Delivery.Locking
import Relay.Delivery.Tokens
import Relay.Pipeline.History
import Relay.Pipeline.Schedule
import Mathlib.Tactic.Linarith

/-!
# One attempt at a time

A worker that attempts a delivery of an ordered endpoint has taken the lock and
not given it back. While holders finish before their key expires, the key of
such a worker is in the store, so there is only one.
-/

namespace Relay

open Enqueue RetryQueue Worker Api Transition

/-- An ordered endpoint is only passed with its lock. -/
def Worker.Pc.Locked (pc : Pc) : Prop :=
  ∀ v, pc.past = some v → v.endpoint.ordering = .ordered → v.lockToken.isSome = true

/-- What a step does to the locks and to the one that its worker holds. -/
inductive Worker.Pc.Locks (clock : ℚ) (s s' : Store) (pc pc' : Pc) : Prop
  | acquires (endpointId token : Uuid) (free : Expiring.live clock (s.locks endpointId) = none)
      (locks : s'.locks =
        Function.update s.locks endpointId (some ⟨token, clock + Store.lockTtl⟩))
      (after : pc'.holding = some (endpointId, token))
  | releases (endpointId token : Uuid) (before : pc.holding = some (endpointId, token))
      (locks : s'.locks = (s.releaseLock endpointId token clock).locks)
      (after : pc'.holding = none)
  | keeps (locks : s'.locks = s.locks) (after : pc'.holding = pc.holding ∨ pc'.holding = none)

section Step

variable {env : Env} {clock : ℚ} {c : Choice} {shard messageId : Nat} {id : Uuid}
  {s s' : Store} {pc pc' : Pc}

theorem Worker.Pc.past_afterOutcome (v : Locals) (slot : Uuid) :
    (Pc.afterOutcome v slot).past = some v := by
  unfold Pc.afterOutcome
  split <;> rfl

theorem Worker.Pc.past_unlock (v : Locals) (acks : Bool) : (Pc.unlock v acks).past = none := by
  unfold Pc.unlock
  split <;> rfl

theorem Worker.Pc.step_locks (h : pc.step env clock c shard messageId id s = some (s', pc')) :
    Locks clock s s' pc pc' := by
  cases Pc.step_exchange h with
  | lock v before acquired after =>
    subst before after
    obtain ⟨free, locks⟩ := Store.acquireLock_some acquired
    exact .acquires v.endpoint.id c.token free locks rfl
  | slot v cap before granted after =>
    subst before after
    exact .keeps (congrArg (fun a => a.1.locks) granted).symm (Or.inl rfl)
  | unlock endpointId token before released after slots =>
    exact .releases endpointId token before (congrArg Store.locks released) after
  | free tenantId token before released after lock =>
    subst released
    exact .keeps rfl (Or.inl lock)
  | neither locks slots lock slot => exact .keeps locks (Or.inl lock)

/-- The lock that was passed stays passed. -/
theorem Worker.Pc.step_locked (h : pc.step env clock c shard messageId id s = some (s', pc'))
    (locked : pc.Locked) : pc'.Locked := by
  have gone : ∀ {pc' : Pc}, pc'.past = none → pc'.Locked := fun none v past => by
    rw [none] at past
    cases past
  cases pc with
  | loadEndpoint now d =>
    simp only [Pc.step] at h
    repeat' split at h
    all_goals cases h
    · exact gone rfl
    · exact gone rfl
    · exact gone rfl
    · rename_i unordered
      intro v past ordered
      cases past
      exact absurd ordered unordered
  | acquireLock v =>
    simp only [Pc.step] at h
    split at h <;> cases h
    · exact gone rfl
    · intro v past _
      cases past
      rfl
  | releaseSlot v slot acks | deferGated v dueAt =>
    cases h
    exact gone (past_unlock v _)
  | recordOutcome v slot time =>
    simp only [Pc.step] at h
    split at h
    · cases h
      exact locked
    · cases h
      exact fun v' past => locked v' ((past_afterOutcome v slot).symm.trans past)
  | publishTrigger v slot event =>
    cases h
    exact fun v' past => locked v' ((past_afterOutcome v slot).symm.trans past)
  | peekHead v | allowRequest v | commitDelivering v | commitOutcome v | refresh v =>
    simp only [Pc.step] at h
    repeat' split at h
    all_goals
      cases h <;> (intro v' past; cases past; exact locked v rfl)
  | _ =>
    simp only [Pc.step] at h
    repeat' split at h
    all_goals
      cases h <;> first
        | exact gone rfl
        | exact locked

end Step

theorem Worker.Pc.past_onRaise {pc : Pc} {v : Locals} (past : pc.onRaise.past = some v) :
    pc.past = some v := by
  cases pc with
  | allowRequest v | getState v | disable v | loadTenant v | takeToken v _ | loadTenantAgain v
  | acquireSlot v _ | deferGated v _ =>
    rw [Pc.onRaise, past_unlock] at past
    cases past
  | _ => first | exact past | cases past

/-! Requests leave the locks alone -/

section Requests

variable {streamShards : Nat} {clock : ℚ} {s s' : Store}

theorem Api.Command.locks_exec (streamShards : Nat) (source : Source) (s : Store) (c : Command) :
    (c.exec streamShards source s).locks = s.locks := by
  obtain ⟨_, _, _, same⟩ := c.exec_frame streamShards source s
  rw [same]

theorem Api.locks_commitRequeued (s : Store) (rows : List Delivery) :
    (commitRequeued s rows).locks = s.locks := by
  obtain ⟨_, _, same⟩ := commitRequeued_frame s rows
  rw [same]

theorem Api.Ingest.locks_step {ids : List Uuid} {r r' : Ingest}
    (h : Ingest.step streamShards ids s r = some (s', r')) : s'.locks = s.locks := by
  simp only [Ingest.step] at h
  repeat' split at h
  all_goals
    cases h <;> first | rfl | exact Command.locks_exec _ _ _ _

theorem Api.Replay.locks_step {r r' : Replay}
    (h : Replay.step streamShards s r = some (s', r')) : s'.locks = s.locks := by
  simp only [Replay.step] at h
  repeat' split at h
  all_goals
    cases h <;> first
      | rfl
      | exact locks_commitRequeued _ _
      | exact Command.locks_exec _ _ _ _

theorem Api.Approve.locks_step {r r' : Approve}
    (h : Approve.step streamShards clock s r = some (s', r')) : s'.locks = s.locks := by
  simp only [Approve.step] at h
  repeat' split at h
  all_goals
    cases h <;> first
      | rfl
      | exact locks_commitRequeued _ _
      | exact Command.locks_exec _ _ _ _

end Requests

/-- The request to this endpoint is under way. -/
def Worker.Pc.receives (endpointId : Uuid) : Pc → Bool
  | .receive v _ => decide (v.endpoint.id = endpointId)
  | _ => false

namespace World

variable {env : Env} {l : Label} {x y : World}

/-- Apart from workers nothing touches a lock. -/
theorem step_locks_other (h : World.step env l x = some y) (other : ∀ w c, l ≠ .work w c) :
    y.store.locks = x.store.locks := by
  cases l with
  | work w c => exact absurd rfl (other w c)
  | serve r ids =>
    simp only [World.step, stepServe] at h
    repeat' split at h
    all_goals cases h
    · rename_i next
      exact Ingest.locks_step next
    · rename_i next
      exact Replay.locks_step next
    · rename_i next
      exact Approve.locks_step next
  | fail r =>
    simp only [World.step, stepFail] at h
    repeat' split at h
    all_goals cases h
    · rename_i next
      simp only [Ingest.fail] at next
      split at next <;> cases next <;> rfl
    · rfl
    · rfl
  | tick | createTenant | createEndpoint | patchEndpoint | proposeAction | resetBreaker | read
  | claim | take | raise | crash | schedule | arrive =>
    simp only [World.step, stepTick, stepCreateTenant, stepCreateEndpoint, stepPatchEndpoint,
      stepProposeAction, stepResetBreaker, stepRead, stepClaim, stepBegin, stepRaise, stepCrash,
      stepSchedule, stepArrive] at h
    repeat' split at h
    all_goals cases h <;> rfl

/-- The worker has acquired the lock of the endpoint and not released it. -/
def Owns (x : World) (w : Nat) (endpointId token : Uuid) : Prop :=
  ∃ h, x.Handles w h ∧ h.pc.holding = some (endpointId, token)

/-- Time does not pass a holder's key: every holder finishes before it expires. -/
def HoldersFinish (x : World) : Label → Prop
  | .tick time => ∀ w endpointId token, x.Owns w endpointId token →
      ∀ k, x.store.locks endpointId = some k → k.value = token → time ≤ k.deadline
  | _ => True

structure OneHolder (x : World) : Prop where
  key : ∀ w endpointId token, x.Owns w endpointId token →
    ∃ k, x.store.locks endpointId = some k ∧ k.value = token ∧ x.clock ≤ k.deadline
  one : ∀ w w' endpointId token token', x.Owns w endpointId token →
    x.Owns w' endpointId token' → w = w'
  locked : ∀ w h, x.Handles w h → h.pc.Locked

/-- What a handling was before a step that is not its own work. -/
theorem handled_before (change : Change env x y l) (other : ∀ w c, l ≠ .work w c) {w : Nat}
    {h : Handling} (handles : y.Handles w h) :
    x.Handles w h ∨ (∃ now, h.pc = .loadDelivery now) ∨
      ∃ old, x.Handles w old ∧ h.pc = old.pc.onRaise := by
  cases change.arises handles with
  | same old _ => exact Or.inl old
  | begun _ _ begun => exact Or.inr (Or.inl ⟨_, congrArg Handling.pc begun⟩)
  | moved label => exact absurd label (other _ _)
  | raised label _ _ _ =>
    subst label
    cases change with
    | admin label => exact label.elim
    | raise _ handled _ workers _ =>
      obtain ⟨_, rfl⟩ := goto_current.mp ((handles_update_self workers).mp handles)
      exact Or.inr (Or.inr ⟨_, handled, rfl⟩)
    | drop label _ _ empty _ workers _ =>
      rcases label with same | same <;> cases same
      have now := (handles_update_self workers).mp handles
      simp [Consumer.held, now] at empty

theorem owns_before (change : Change env x y l) (other : ∀ w c, l ≠ .work w c) {w : Nat}
    {endpointId token : Uuid} (holds : y.Owns w endpointId token) :
    x.Owns w endpointId token := by
  obtain ⟨h, handles, holding⟩ := holds
  rcases handled_before change other handles with old | ⟨now, begun⟩ |
    ⟨old, handled, raised⟩
  · exact ⟨h, old, holding⟩
  · rw [begun] at holding
    cases holding
  · rw [raised] at holding
    rcases old.pc.holding_onRaise with same | none
    · exact ⟨old, handled, same ▸ holding⟩
    · rw [none] at holding
      cases holding

/-- A worker's own step: what it holds then, and that the others hold what they held. -/
theorem owns_work {w : Nat} {h : Handling} {pc : Pc}
    (workers : y.workers = Function.update x.workers w (Consumer.goto (x.workers w) h pc))
    {w' : Nat} {endpointId token : Uuid} (holds : y.Owns w' endpointId token) :
    (w' = w ∧ pc.holding = some (endpointId, token)) ∨
      (w' ≠ w ∧ x.Owns w' endpointId token) := by
  obtain ⟨h', handles, holding⟩ := holds
  by_cases mine : w' = w
  · subst mine
    obtain ⟨_, rfl⟩ := goto_current.mp ((handles_update_self workers).mp handles)
    exact Or.inl ⟨rfl, holding⟩
  · exact Or.inr ⟨mine, h', (handles_update_ne mine workers).mp handles, holding⟩

theorem OneHolder.work (inv : OneHolder x) {w : Nat} {h : Handling} {pc : Pc}
    (handles : x.Handles w h) (clock : y.clock = x.clock)
    (locks : Pc.Locks x.clock x.store y.store h.pc pc) (locked : pc.Locked)
    (workers : y.workers = Function.update x.workers w (Consumer.goto (x.workers w) h pc)) :
    OneHolder y := by
  have lockedAll : ∀ w' h', y.Handles w' h' → h'.pc.Locked := by
    intro w' h' handles'
    by_cases mine : w' = w
    · subst mine
      obtain ⟨_, rfl⟩ := goto_current.mp ((handles_update_self workers).mp handles')
      exact locked
    · exact inv.locked w' h' ((handles_update_ne mine workers).mp handles')
  cases locks with
  | acquires e t free locks after =>
    -- a live key would have refused the lock, so no one else holds it
    have none_held : ∀ w' t', ¬ x.Owns w' e t' := by
      intro w' t' holds
      obtain ⟨k, stored, _, live⟩ := inv.key w' e t' holds
      rw [stored, Expiring.live_some live] at free
      cases free
    refine ⟨fun w' e' t' holds => ?_, fun w₁ w₂ e' t₁ t₂ first second => ?_, lockedAll⟩
    · rcases owns_work workers holds with ⟨_, own⟩ | ⟨_, old⟩
      · rw [after] at own
        cases own
        refine ⟨_, by rw [locks, Function.update_self], rfl, ?_⟩
        rw [clock]
        simp only [Store.lockTtl]
        linarith
      · have ne : e' ≠ e := fun same => none_held w' t' (same ▸ old)
        rw [locks, Function.update_of_ne ne, clock]
        exact inv.key w' e' t' old
    · rcases owns_work workers first with ⟨rfl, own⟩ | ⟨_, old⟩
      · rcases owns_work workers second with ⟨rfl, _⟩ | ⟨_, old'⟩
        · rfl
        · rw [after] at own
          cases own
          exact absurd old' (none_held w₂ t₂)
      · rcases owns_work workers second with ⟨rfl, own'⟩ | ⟨_, old'⟩
        · rw [after] at own'
          cases own'
          exact absurd old (none_held w₁ t₁)
        · exact inv.one w₁ w₂ e' t₁ t₂ old old'
  | releases e t before locks after =>
    have mine : x.Owns w e t := ⟨h, handles, before⟩
    have others : ∀ w' e' t', y.Owns w' e' t' → w' ≠ w ∧ x.Owns w' e' t' := by
      intro w' e' t' holds
      rcases owns_work workers holds with ⟨_, own⟩ | old
      · rw [after] at own
        cases own
      · exact old
    refine ⟨fun w' e' t' holds => ?_, fun w₁ w₂ e' t₁ t₂ first second => ?_, lockedAll⟩
    · obtain ⟨ne, old⟩ := others w' e' t' holds
      have elsewhere : e' ≠ e := by
        rintro rfl
        exact ne (inv.one w' w e' t' t old mine)
      have kept : y.store.locks e' = x.store.locks e' := by
        rw [locks]
        rcases x.store.locks_releaseLock e t x.clock with same | ⟨_, freed⟩
        · rw [same]
        · rw [freed, Function.update_of_ne elsewhere]
      rw [kept, clock]
      exact inv.key w' e' t' old
    · exact inv.one w₁ w₂ e' t₁ t₂ (others w₁ e' t₁ first).2
        (others w₂ e' t₂ second).2
  | keeps locks after =>
    have old : ∀ w' e' t', y.Owns w' e' t' → x.Owns w' e' t' := by
      intro w' e' t' holds
      rcases owns_work workers holds with ⟨rfl, own⟩ | ⟨_, old⟩
      · rcases after with same | none
        · exact ⟨h, handles, same ▸ own⟩
        · rw [none] at own
          cases own
      · exact old
    refine ⟨fun w' e' t' holds => ?_, fun w₁ w₂ e' t₁ t₂ first second => ?_, lockedAll⟩
    · rw [locks, clock]
      exact inv.key w' e' t' (old w' e' t' holds)
    · exact inv.one w₁ w₂ e' t₁ t₂ (old w₁ e' t₁ first) (old w₂ e' t₂ second)

theorem OneHolder.step (inv : OneHolder x) (finish : x.HoldersFinish l)
    (next : World.step env l x = some y) : OneHolder y := by
  have change := step_change next
  by_cases working : ∃ w c, l = .work w c
  · obtain ⟨w, c, rfl⟩ := working
    cases change with
    | admin label => exact label.elim
    | drop label => rcases label with same | same <;> cases same
    | work clock handles step _ workers _ =>
      exact inv.work handles clock (Pc.step_locks step)
        (Pc.step_locked step (inv.locked _ _ handles)) workers
  · have other : ∀ w c, l ≠ .work w c := fun w c same => working ⟨w, c, same⟩
    have locks := step_locks_other next other
    refine ⟨fun w e t holds => ?_, fun w w' e t t' first second => ?_, fun w h handles => ?_⟩
    · have old := owns_before change other holds
      obtain ⟨k, stored, value, live⟩ := inv.key w e t old
      refine ⟨k, locks ▸ stored, value, ?_⟩
      rcases change.clock with same | ⟨time, rfl, _, now⟩
      · exact same ▸ live
      · rw [now]
        exact finish w e t old k stored value
    · exact inv.one w w' e t t' (owns_before change other first)
        (owns_before change other second)
    · rcases handled_before change other handles with old | ⟨now, begun⟩ |
        ⟨old, handled, raised⟩
      · exact inv.locked w h old
      · intro v past
        rw [begun] at past
        cases past
      · intro v past
        rw [raised] at past
        exact inv.locked w old handled v (Pc.past_onRaise past)

/-- The worker has sent a request to the endpoint and waits for the response. -/
def InFlight (x : World) (w : Nat) (endpointId : Uuid) : Prop :=
  ∃ h v slot, x.Handles w h ∧ h.pc = .receive v slot ∧ v.endpoint.id = endpointId

/-- Whoever attempts a delivery of an ordered endpoint holds its lock. -/
theorem InFlight.owns {w : Nat} {endpointId : Uuid} (flies : x.InFlight w endpointId)
    (inv : Consistent env x) (one : OneHolder x)
    (ordered : x.core.orderings endpointId = some .ordered) :
    ∃ token, x.Owns w endpointId token := by
  obtain ⟨h, v, slot, handles, receiving, rfl⟩ := flies
  have sound := inv.sessions w h handles
  rw [receiving] at sound
  have ordering : v.endpoint.ordering = .ordered :=
    Option.some.inj (sound.1.ordering.symm.trans ordered)
  have past : h.pc.past = some v := by
    rw [receiving]
    rfl
  obtain ⟨token, held⟩ := Option.isSome_iff_exists.mp (one.locked w h handles v past ordering)
  refine ⟨token, h, handles, ?_⟩
  rw [receiving]
  simp [Pc.holding, Pc.past, held]

theorem oneHolder_initial (shardOf : Nat → Nat) : OneHolder (initial shardOf) where
  key := fun _ _ _ ⟨_, handles, _⟩ => by cases handles
  one := fun _ _ _ _ _ ⟨_, handles, _⟩ => by cases handles
  locked := fun _ _ handles => by cases handles

/-- One lock is held at a time and no release removes another's; so where holders
finish in time, an ordered endpoint has one attempt in flight. -/
theorem one_at_a_time {endpointId : Uuid} {s : Store} {clock : ℚ} {x : Locking}
    {shardOf : Nat → Nat} {y : World}
    (locks : Run (Locking.step endpointId) (fun _ _ => True) (Locking.start s clock) x)
    (run : Run (World.step env) HoldersFinish (initial shardOf) y) :
    (∀ g g', x.Held g → x.Held g' → g = g') ∧
    (∀ worker token z, Locking.step endpointId (.releaseLock worker token) x = some z →
      ∀ g ∈ x.granted, Expiring.live x.clock (x.store.locks endpointId) = some g.token →
        g.worker ≠ worker → z.store.locks endpointId = x.store.locks endpointId) ∧
    ∀ e w w', y.core.orderings e = some .ordered → y.InFlight w e →
      y.InFlight w' e → w = w' := by
  have exclusive := Locking.exclusive_run locks
  have inv : Consistent env y := consistent_run run
  have one : OneHolder y := run.invariant (oneHolder_initial shardOf)
    (fun inv finish next => inv.step finish next)
  refine ⟨fun g g' held held' => exclusive.unique held held', ?_, ?_⟩
  · exact fun worker token z next g listed owns other =>
      exclusive.others_kept next listed owns other
  · intro e w w' ordered flies flies'
    obtain ⟨t, holds⟩ := flies.owns inv one ordered
    obtain ⟨t', holds'⟩ := flies'.owns inv one ordered
    exact one.one w w' e t t' holds holds'

/-- Locks that are released late, and a delivery that is being sent. -/
theorem one_at_a_time_sending : ∃ (x : Locking) (y : World),
    Run (Locking.step 1) (fun _ _ => True) (Locking.start (initial (fun _ => 3)).store 0) x ∧
    Run (World.step headerless) HoldersFinish (initial (fun _ => 3)) y ∧
    y.core.orderings 1 = some .ordered ∧ (∃ w, y.InFlight w 1) ∧
    (∀ g g', x.Held g → x.Held g' → g = g') ∧
    (∀ worker token z, Locking.step 1 (.releaseLock worker token) x = some z →
      ∀ g ∈ x.granted, Expiring.live x.clock (x.store.locks 1) = some g.token →
        g.worker ≠ worker → z.store.locks 1 = x.store.locks 1) ∧
    ∀ e w w', y.core.orderings e = some .ordered → y.InFlight w e →
      y.InFlight w' e → w = w' := by
  have evaluates : (exec (World.step headerless) (fun _ l => !(l matches .tick _))
      (ingested queueShop 10 11 ++ [.read 0, .take 0] ++ works 0 14 ⟨7, answered, 1⟩)
      (initial (fun _ => 3))).elim false (fun x =>
        decide (x.core.orderings 1 = some .ordered) &&
          (x.workers 0).current.elim false (fun h => h.pc.receives 1)) = true := by
    decide +kernel
  have locking : (exec (Locking.step 1) (fun _ _ => true)
      [.acquireLock 0 5, .tick 40, .acquireLock 1 6, .releaseLock 0 5]
      (Locking.start (initial (fun _ => 3)).store 0)).elim false (fun _ => true) = true := by
    decide +kernel
  obtain ⟨x, executed, _⟩ := reached locking
  obtain ⟨y, executed', passes⟩ := reached evaluates
  obtain ⟨ordered, flies⟩ := Bool.and_eq_true_iff.mp passes
  have locks := run_of_exec (fun _ _ _ => trivial) executed
  have run : Run (World.step headerless) HoldersFinish (initial (fun _ => 3)) y := by
    refine run_of_exec (fun x l admitted => ?_) executed'
    cases l with
    | tick => cases admitted
    | _ => trivial
  have inFlight : ∃ w, y.InFlight w 1 := by
    cases current : (y.workers 0).current with
    | none =>
      rw [current] at flies
      cases flies
    | some h =>
      rw [current] at flies
      simp only [Option.elim_some, Pc.receives] at flies
      split at flies
      · rename_i v slot receiving
        exact ⟨0, h, v, slot, current, receiving, of_decide_eq_true flies⟩
      · cases flies
  exact ⟨x, y, locks, run, of_decide_eq_true ordered, inFlight, one_at_a_time locks run⟩

end World

end Relay
