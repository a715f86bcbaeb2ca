import Relay.Api.Job
import Relay.Delivery.Session
import Relay.Pipeline

/-!
# What a step of the pipeline does

One inversion for all labels. `Change` gives the durable core, the consumers and
the requests after a step in terms of those before it; results about runs are
proved by cases on it.
-/

namespace Relay

open Enqueue RetryQueue Worker Api

def Request.job (streamShards : Nat) : Request → Job
  | .ingest q => q.job
  | .replay q => q.job streamShards
  | .approve q => q.job

/-- The entries in a worker's hands: the one it handles, then the rest of the batch. -/
def Consumer.held (c : Consumer) : List (Nat × Fields) :=
  (c.current.map (fun h => (h.messageId, h.fields))).toList ++ c.todo

/-- Labels under which no worker, scheduler or request acts. -/
def Label.Admin : Label → Prop
  | .tick _ | .createTenant _ | .createEndpoint _ | .patchEndpoint _ _ _ _
  | .proposeAction _ | .resetBreaker _ _ => True
  | _ => False

namespace World

abbrev core (x : World) : Core := x.store.core

def Handles (x : World) (w : Nat) (h : Handling) : Prop := (x.workers w).current = some h

def shard (x : World) (w : Nat) : Nat := (x.workers w).shard

def held (x : World) (w : Nat) : List (Nat × Fields) := (x.workers w).held

inductive Change (env : Env) (x y : World) : Label → Prop
  /-- The clock, the tables of tenants and endpoints, proposals, resets of breakers. -/
  | admin {l : Label} (label : l.Admin)
      (clock : y.clock = x.clock ∨ ∃ time, l = .tick time ∧ x.clock ≤ time ∧
        y.clock = time)
      (endpoints : x.core.endpoints <+: y.core.endpoints)
      (distinct : (x.core.endpoints.map Prod.fst).Nodup → (y.core.endpoints.map Prod.fst).Nodup)
      (core : y.core = { x.core with endpoints := y.core.endpoints })
      (workers : y.workers = x.workers) (requests : y.requests = x.requests) : Change env x y l
  | arrive {r : Nat} {call : Call} (clock : y.clock = x.clock) (core : y.core = x.core)
      (workers : y.workers = x.workers) (free : x.requests r = none)
      (requests : y.requests = Function.update x.requests r (some call.start)) :
      Change env x y (.arrive r call)
  | read {w : Nat} {f : Fields} (clock : y.clock = x.clock) (idle : x.Idle w)
      (next : (x.streamOf w).entries[(x.streamOf w).lastDelivered]? = some f)
      (core : y.core = x.core.onStream (x.shard w) (fun log => log.xreadgroup w x.clock))
      (workers : y.workers = Function.update x.workers w
        { x.workers w with batchAt := x.clock, todo := [((x.streamOf w).lastDelivered, f)] })
      (requests : y.requests = x.requests) : Change env x y (.read w)
  | claim {w : Nat} {ids : List Nat} (clock : y.clock = x.clock) (idle : x.Idle w)
      (distinct : ids.Nodup) (count : ids.length ≤ reclaimCount)
      (stale : ∀ id ∈ ids, (x.streamOf w).Stale (reclaimMinIdleMs / 1000) x.clock id)
      (core : y.core = x.core.onStream (x.shard w) (fun log => log.xclaim w x.clock ids))
      (workers : y.workers = Function.update x.workers w
        { x.workers w with
          batchAt := x.clock
          todo := ids.filterMap
            (fun id => ((x.streamOf w).entries[id]?).map (fun f => (id, f))) })
      (requests : y.requests = x.requests) : Change env x y (.claim w ids)
  | take {w id : Nat} {f : Fields} {rest : List (Nat × Fields)} (clock : y.clock = x.clock)
      (todo : (x.workers w).todo = (id, f) :: rest) (free : (x.workers w).current = none)
      (core : y.core = x.core)
      (workers : y.workers = Function.update x.workers w
        { x.workers w with
          todo := rest
          current := some ⟨id, f, x.clock, .loadDelivery x.clock⟩ })
      (requests : y.requests = x.requests) : Change env x y (.take w)
  | work {w : Nat} {c : Choice} {h : Handling} {pc : Pc} (clock : y.clock = x.clock)
      (handles : x.Handles w h)
      (step : h.pc.step env x.clock c (x.shard w) h.messageId h.fields.deliveryId x.store =
        some (y.store, pc))
      (move : Move env x.clock (x.shard w) h.messageId h.fields.deliveryId x.store h.pc.session
        y.core pc.session)
      (workers : y.workers = Function.update x.workers w (Consumer.goto (x.workers w) h pc))
      (requests : y.requests = x.requests) : Change env x y (.work w c)
  | raise {w : Nat} {h : Handling} (clock : y.clock = x.clock) (handles : x.Handles w h)
      (core : y.core = x.core)
      (workers : y.workers =
        Function.update x.workers w (Consumer.goto (x.workers w) h h.pc.onRaise))
      (requests : y.requests = x.requests) : Change env x y (.raise w)
  /-- A crash, or an exception that leaves `handle_message`. -/
  | drop {l : Label} {w : Nat} {c : Consumer} (label : l = .crash w ∨ l = .raise w)
      (clock : y.clock = x.clock) (core : y.core = x.core) (held : c.held = [])
      (shard : c.shard = x.shard w) (workers : y.workers = Function.update x.workers w c)
      (requests : y.requests = x.requests) : Change env x y l
  | schedule {now : ℚ} {limit : Nat} (clock : y.clock = x.clock)
      (core : y.core = x.core.moveDueToStreams now limit) (workers : y.workers = x.workers)
      (requests : y.requests = x.requests) : Change env x y (.schedule now limit)
  | serve {r : Nat} {ids : List Uuid} {q q' : Request} (clock : y.clock = x.clock)
      (running : x.requests r = some q)
      (move : JobMove env.settings.streamShards x.store (q.job env.settings.streamShards) y.core
        (q'.job env.settings.streamShards))
      (workers : y.workers = x.workers)
      (requests : y.requests = Function.update x.requests r (some q')) :
      Change env x y (.serve r ids)
  | fail {r : Nat} {q q' : Request} (clock : y.clock = x.clock) (running : x.requests r = some q)
      (core : y.core = x.core) (ended : q'.job env.settings.streamShards = .ended)
      (workers : y.workers = x.workers)
      (requests : y.requests = Function.update x.requests r (some q')) : Change env x y (.fail r)

theorem core_newTables (x : World) (db : Db) (deliveries : db.deliveries = x.store.db.deliveries)
    (events : db.events = x.store.db.events) :
    (x.withDb db).core = { x.core with endpoints := (x.withDb db).core.endpoints } := by
  simp only [core, withDb, Store.core, deliveries, events]

theorem step_change {env : Env} {l : Label} {x y : World} (h : World.step env l x = some y) :
    Change env x y l := by
  cases l with
  | tick time =>
    simp only [World.step, stepTick] at h
    split at h <;> cases h
    rename_i later
    exact .admin trivial (Or.inr ⟨time, rfl, later, rfl⟩) (List.prefix_refl _) id rfl rfl rfl
  | createTenant t =>
    simp only [World.step, stepCreateTenant] at h
    split at h <;> cases h
    exact .admin trivial (Or.inl rfl) (List.prefix_refl _) id rfl rfl rfl
  | createEndpoint e =>
    simp only [World.step, stepCreateEndpoint] at h
    split at h <;> cases h
    rename_i allowed
    refine .admin trivial (Or.inl rfl) ⟨[e.identity], ?_⟩ ?_
      (core_newTables x _ rfl rfl) rfl rfl
    · simp [core, Store.core, withDb]
    · intro distinct
      have absent : e.id ∉ x.store.db.endpoints.map Endpoint.id :=
        Table.get_eq_none.mp (Option.isNone_iff_eq_none.mp allowed.1)
      have ids : x.core.endpoints.map Prod.fst = x.store.db.endpoints.map Endpoint.id :=
        List.map_map
      have now : (x.withDb { x.store.db with
          endpoints := x.store.db.endpoints ++ [e] }).core.endpoints.map Prod.fst =
          x.core.endpoints.map Prod.fst ++ [e.id] := by
        simp [core, Store.core, withDb, Endpoint.identity]
      rw [now, List.nodup_append]
      refine ⟨distinct, List.nodup_singleton _, fun a ha b hb same => absent ?_⟩
      rw [List.mem_singleton.mp hb] at same
      exact ids ▸ same ▸ ha
  | patchEndpoint id url status eventTypes =>
    cases h
    have same := x.store.db.identity_update id (f := fun e => patched e url status eventTypes)
      (fun _ => rfl)
    refine .admin trivial (Or.inl rfl) ⟨[], ?_⟩ (fun distinct => ?_)
      (core_newTables x _ rfl rfl)
      rfl rfl
    · exact (List.append_nil _).trans same.symm
    · exact (congrArg (fun l => (l.map Prod.fst).Nodup) same).mpr distinct
  | proposeAction a =>
    simp only [World.step, stepProposeAction] at h
    split at h <;> cases h
    exact .admin trivial (Or.inl rfl) (List.prefix_refl _) id rfl rfl rfl
  | resetBreaker tenantId endpointId =>
    simp only [World.step, stepResetBreaker] at h
    split at h <;> cases h
    exact .admin trivial (Or.inl rfl) (List.prefix_refl _) id rfl rfl rfl
  | read w =>
    simp only [World.step, stepRead] at h
    split at h
    · rename_i idle
      split at h <;> cases h
      rename_i f next
      exact .read rfl idle next rfl rfl rfl
    · cases h
  | claim w ids =>
    simp only [World.step, stepClaim] at h
    split at h <;> cases h
    rename_i allowed
    obtain ⟨idle, distinct, count, stale⟩ := allowed
    exact .claim rfl idle distinct count stale rfl rfl rfl
  | take w =>
    simp only [World.step, stepBegin] at h
    split at h
    · cases h
    · split at h <;> cases h
      rename_i id f rest todo free
      exact .take rfl todo free rfl rfl rfl
  | work w c =>
    simp only [World.step, stepWork] at h
    split at h
    · cases h
    · split at h
      · cases h
      · rename_i handling handles
        split at h
        · cases h
        · rename_i s pc next
          cases h
          exact .work rfl handles next (Pc.step_move next) rfl rfl
  | raise w =>
    simp only [World.step, stepRaise] at h
    split at h
    · cases h
    · split at h
      · cases h
      · rename_i handling handles
        split at h
        · cases h
          exact .drop (c := { x.workers w with todo := [], current := none }) (Or.inr rfl)
            rfl rfl rfl rfl rfl rfl
        · rename_i pc _ _
          cases h
          exact .raise rfl handles rfl rfl rfl
  | crash w =>
    cases h
    exact .drop (c := { x.workers w with crashed := true, todo := [], current := none })
      (Or.inl rfl) rfl rfl rfl rfl rfl rfl
  | schedule now limit =>
    cases h
    exact .schedule rfl rfl rfl rfl
  | arrive r call =>
    simp only [World.step, stepArrive] at h
    split at h <;> cases h
    rename_i free
    exact .arrive rfl rfl rfl (by simpa using free) rfl
  | serve r ids =>
    simp only [World.step, stepServe] at h
    split at h
    · cases h
    · rename_i q running
      split at h <;> cases h
      rename_i s q' next
      have move : JobMove env.settings.streamShards x.store
          (Request.job env.settings.streamShards (.ingest q)) s.core
          (Request.job env.settings.streamShards (.ingest q')) := Ingest.step_move next
      exact .serve rfl running move rfl rfl
    · rename_i q running
      split at h <;> cases h
      rename_i s q' next
      have move : JobMove env.settings.streamShards x.store
          (Request.job env.settings.streamShards (.replay q)) s.core
          (Request.job env.settings.streamShards (.replay q')) := Replay.step_move next
      exact .serve rfl running move rfl rfl
    · rename_i q running
      split at h <;> cases h
      rename_i s q' next
      have move : JobMove env.settings.streamShards x.store
          (Request.job env.settings.streamShards (.approve q)) s.core
          (Request.job env.settings.streamShards (.approve q')) := Approve.step_move next
      exact .serve rfl running move rfl rfl
  | fail r =>
    simp only [World.step, stepFail] at h
    split at h
    · rename_i q running
      split at h <;> cases h
      rename_i s q' next
      have ended : Request.job env.settings.streamShards (.ingest q') = .ended :=
        (Ingest.fail_job next).2
      exact .fail rfl running (Ingest.fail_job next).1 ended rfl rfl
    · rename_i q running
      cases h
      have ended : Request.job env.settings.streamShards
          (.replay { q with pc := .done (.error ⟨500, "internal", ""⟩) }) = .ended := rfl
      exact .fail rfl running rfl ended rfl rfl
    · rename_i q running
      cases h
      have ended : Request.job env.settings.streamShards
          (.approve { q with pc := .done (.error ⟨500, "internal", ""⟩) }) = .ended := rfl
      exact .fail rfl running rfl ended rfl rfl
    · cases h

/-! What follows for every change -/

variable {env : Env} {l : Label} {x y : World}

theorem Change.clock (h : Change env x y l) :
    y.clock = x.clock ∨ ∃ time, l = .tick time ∧ x.clock ≤ time ∧ y.clock = time := by
  cases h with
  | admin _ clock => exact clock
  | arrive clock | read clock | claim clock | take clock | work clock | raise clock
  | drop _ clock | schedule clock | serve clock | fail clock => exact Or.inl clock

theorem Change.extends (h : Change env x y l) : x.core.Extends y.core := by
  cases h with
  | admin _ _ endpoints _ core _ _ =>
    rw [core]
    exact .of_same rfl rfl endpoints (List.suffix_refl _)
      (fun _ => List.prefix_refl _) rfl
  | read _ _ _ core _ _ =>
    rw [core]
    exact x.core.extends_onStream _ (fun log => log.xreadgroup_entries _ _)
  | claim _ _ _ _ _ core _ _ =>
    rw [core]
    exact x.core.extends_onStream _ (fun log => log.xclaim_entries _ _ _)
  | arrive _ core | take _ _ _ core | raise _ _ core | drop _ _ core | fail _ _ core =>
    rw [core]
    exact .refl _
  | work _ _ _ move _ _ => exact move.extends
  | schedule _ core _ _ =>
    rw [core]
    exact x.core.extends_moveDueToStreams _ _
  | serve _ _ move _ _ => exact move.extends

theorem goto_current {c : Consumer} {h h' : Handling} {pc : Pc} :
    (Consumer.goto c h pc).current = some h' ↔ pc ≠ .finished ∧ h' = { h with pc := pc } := by
  cases pc <;> simp [Consumer.goto, eq_comm]

@[simp] theorem goto_todo (c : Consumer) (h : Handling) (pc : Pc) :
    (Consumer.goto c h pc).todo = c.todo := by
  cases pc <;> rfl

theorem goto_crashed (c : Consumer) (h : Handling) (pc : Pc) :
    (Consumer.goto c h pc).crashed = c.crashed := by
  cases pc <;> rfl

@[simp] theorem goto_shard (c : Consumer) (h : Handling) (pc : Pc) :
    (Consumer.goto c h pc).shard = c.shard := by
  cases pc <;> rfl

@[simp] theorem goto_batchAt (c : Consumer) (h : Handling) (pc : Pc) :
    (Consumer.goto c h pc).batchAt = c.batchAt := by
  cases pc <;> rfl

/-- How a handling of the new state came about. -/
inductive Arises (env : Env) (x y : World) (l : Label) (w : Nat) (h : Handling) : Prop
  | same (old : x.Handles w h) (other : ∀ c, l ≠ .work w c)
  | begun {f : Fields} {id : Nat} (label : l = .take w) (held : (id, f) ∈ x.held w)
      (begun : h = ⟨id, f, x.clock, .loadDelivery x.clock⟩)
  | moved {c : Choice} {old : Handling} (label : l = .work w c) (handled : x.Handles w old)
      (step : old.pc.step env x.clock c (x.shard w) old.messageId old.fields.deliveryId x.store =
        some (y.store, h.pc))
      (move : Move env x.clock (x.shard w) old.messageId old.fields.deliveryId x.store
        old.pc.session y.core h.pc.session)
      (kept : h.messageId = old.messageId ∧ h.fields = old.fields ∧ h.startedAt = old.startedAt)
  | raised {old : Handling} (label : l = .raise w) (handled : x.Handles w old)
      (session : h.pc.session = .leaving false)
      (kept : h.messageId = old.messageId ∧ h.fields = old.fields ∧ h.startedAt = old.startedAt)

theorem handles_update_ne {w w' : Nat} {c : Consumer} {h : Handling} (ne : w' ≠ w)
    (workers : y.workers = Function.update x.workers w c) : y.Handles w' h ↔ x.Handles w' h := by
  unfold Handles
  rw [workers, Function.update_of_ne ne]

theorem handles_update_self {w : Nat} {c : Consumer} {h : Handling}
    (workers : y.workers = Function.update x.workers w c) :
    y.Handles w h ↔ c.current = some h := by
  unfold Handles
  rw [workers, Function.update_self]

theorem goto_handles {w : Nat} {h : Handling} {pc : Pc} (running : pc.session ≠ .finished)
    (workers : y.workers = Function.update x.workers w (Consumer.goto (x.workers w) h pc)) :
    y.Handles w { h with pc := pc } := by
  refine (handles_update_self workers).mpr (goto_current.mpr ⟨?_, rfl⟩)
  rintro rfl
  exact running rfl

theorem Change.arises (change : Change env x y l) {w : Nat} {h : Handling}
    (handles : y.Handles w h) : Arises env x y l w h := by
  cases change with
  | admin label _ _ _ _ workers _ =>
    refine .same ?_ (fun c same => by rw [same] at label; exact label)
    unfold Handles at handles ⊢
    rwa [← workers]
  | arrive _ _ workers _ _ | schedule _ _ workers _ | serve _ _ _ workers _
  | fail _ _ _ _ workers _ =>
    refine .same ?_ (fun c same => by cases same)
    unfold Handles at handles ⊢
    rwa [← workers]
  | @read w₀ f _ idle next core workers requests =>
    refine .same ?_ (fun c same => by cases same)
    by_cases mine : w = w₀
    · subst mine
      exact (handles_update_self workers).mp handles
    · exact (handles_update_ne mine workers).mp handles
  | @claim w₀ ids _ idle distinct count stale core workers requests =>
    refine .same ?_ (fun c same => by cases same)
    by_cases mine : w = w₀
    · subst mine
      exact (handles_update_self workers).mp handles
    · exact (handles_update_ne mine workers).mp handles
  | @take w₀ id f rest _ todo free core workers requests =>
    by_cases mine : w = w₀
    · subst mine
      have begun := (handles_update_self workers).mp handles
      refine .begun rfl ?_ (Option.some.inj begun).symm
      simp [held, Consumer.held, todo, free]
    · exact .same ((handles_update_ne mine workers).mp handles) (fun c same => by cases same)
  | @work w₀ c old pc _ handled step move workers requests =>
    by_cases mine : w = w₀
    · subst mine
      have now := goto_current.mp ((handles_update_self workers).mp handles)
      obtain ⟨_, rfl⟩ := now
      exact .moved rfl handled step move ⟨rfl, rfl, rfl⟩
    · refine .same ((handles_update_ne mine workers).mp handles) (fun c' same => ?_)
      cases same
      exact mine rfl
  | @raise w₀ old _ handled core workers requests =>
    by_cases mine : w = w₀
    · subst mine
      have now := goto_current.mp ((handles_update_self workers).mp handles)
      obtain ⟨running, rfl⟩ := now
      refine .raised rfl handled ?_ ⟨rfl, rfl, rfl⟩
      rcases Pc.onRaise_session old.pc with session | finished
      · exact session
      · exact absurd finished running
    · exact .same ((handles_update_ne mine workers).mp handles) (fun c same => by cases same)
  | @drop _ w₀ c label _ core empty shard workers requests =>
    by_cases mine : w = w₀
    · subst mine
      have now : c.current = some h := (handles_update_self workers).mp handles
      simp [Consumer.held, now] at empty
    · refine .same ((handles_update_ne mine workers).mp handles) (fun c' same => ?_)
      rcases label with rfl | rfl <;> cases same

/-- A handling goes on unless its worker steps, raises or crashes. -/
theorem Change.handles_kept (change : Change env x y l) {w : Nat} {h : Handling}
    (handles : x.Handles w h) (working : ∀ c, l ≠ .work w c) (raising : l ≠ .raise w)
    (crashing : l ≠ .crash w) : y.Handles w h := by
  have current : ∀ {w₀ : Nat} {c : Consumer},
      y.workers = Function.update x.workers w₀ c → (w = w₀ → c.current = some h) →
      y.Handles w h := by
    intro w₀ c workers mine
    by_cases same : w = w₀
    · subst same
      exact (handles_update_self workers).mpr (mine rfl)
    · exact (handles_update_ne same workers).mpr handles
  cases change with
  | admin _ _ _ _ _ workers _ | arrive _ _ workers _ _ | schedule _ _ workers _
  | serve _ _ _ workers _ | fail _ _ _ _ workers _ =>
    unfold Handles at handles ⊢
    rwa [workers]
  | read _ _ _ _ workers _ | claim _ _ _ _ _ _ workers _ =>
    refine current workers (fun same => ?_)
    subst same
    exact handles
  | take _ _ free _ workers _ =>
    refine current workers (fun same => ?_)
    subst same
    rw [Handles, free] at handles
    cases handles
  | @work _ c _ _ _ _ _ _ workers _ =>
    exact current workers (fun same => absurd (congrArg (Label.work · c) same.symm) (working c))
  | raise _ _ _ workers _ =>
    exact current workers (fun same => absurd (congrArg Label.raise same.symm) raising)
  | drop label _ _ _ _ workers _ =>
    refine current workers (fun same => ?_)
    subst same
    rcases label with crash | raise
    · exact absurd crash crashing
    · exact absurd raise raising

theorem start_job (streamShards : Nat) (call : Call) : call.start.job streamShards = .idle := by
  cases call with
  | ingest tenantId body =>
    by_cases keyed : body.idempotencyKey.isSome = true
    · simp [Call.start, Request.job, Ingest.job, Ingest.start, keyed]
    · simp [Call.start, Request.job, Ingest.job, Ingest.start, keyed]
  | replay tenantId body => rfl
  | approve tenantId actionId => rfl

/-- How a request of the new state came about. -/
inductive Serves (env : Env) (x y : World) (l : Label) (r : Nat) (q : Request) : Prop
  | same (old : x.requests r = some q) (other : ∀ ids, l ≠ .serve r ids)
  | arrived {call : Call} (label : l = .arrive r call) (start : q = call.start)
      (idle : q.job env.settings.streamShards = .idle)
  | moved {ids : List Uuid} {old : Request} (label : l = .serve r ids)
      (running : x.requests r = some old)
      (move : JobMove env.settings.streamShards x.store (old.job env.settings.streamShards) y.core
        (q.job env.settings.streamShards))
  | failed {old : Request} (label : l = .fail r) (running : x.requests r = some old)
      (ended : q.job env.settings.streamShards = .ended)

theorem Change.serves (change : Change env x y l) {r : Nat} {q : Request}
    (running : y.requests r = some q) : Serves env x y l r q := by
  cases change with
  | admin label _ _ _ _ _ requests =>
    refine .same (requests ▸ running) (fun ids same => by rw [same] at label; exact label)
  | read _ _ _ _ _ requests | claim _ _ _ _ _ _ _ requests | take _ _ _ _ _ requests
  | work _ _ _ _ _ requests | raise _ _ _ _ requests | schedule _ _ _ requests =>
    exact .same (requests ▸ running) (fun ids same => by cases same)
  | drop label _ _ _ _ _ requests =>
    refine .same (requests ▸ running) (fun ids same => ?_)
    rcases label with rfl | rfl <;> cases same
  | @arrive r₀ call _ _ _ _ requests =>
    by_cases mine : r = r₀
    · subst mine
      rw [requests, Function.update_self] at running
      cases running
      exact .arrived rfl rfl (start_job _ call)
    · rw [requests, Function.update_of_ne mine] at running
      exact .same running (fun ids same => by cases same)
  | @serve r₀ ids old new _ found move _ requests =>
    by_cases mine : r = r₀
    · subst mine
      rw [requests, Function.update_self] at running
      cases running
      exact .moved rfl found move
    · rw [requests, Function.update_of_ne mine] at running
      refine .same running (fun ids' same => ?_)
      cases same
      exact mine rfl
  | @fail r₀ old new _ found _ ended _ requests =>
    by_cases mine : r = r₀
    · subst mine
      rw [requests, Function.update_self] at running
      cases running
      exact .failed rfl found ended
    · rw [requests, Function.update_of_ne mine] at running
      exact .same running (fun ids same => by cases same)

end World

end Relay
