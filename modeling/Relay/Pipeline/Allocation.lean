import Relay.Pipeline.Change

/-!
# Fresh identifiers

Rows and the rows that open transactions are about to insert never share an id,
so a select by primary key finds every row.
-/

namespace Relay

open Enqueue RetryQueue Worker Api

def Core.used (c : Core) : List Uuid := c.events.map Event.id ++ c.deliveries.map Delivery.id

/-- The ids of the rows that a request is about to insert. -/
def Api.Job.drawn : Job → List Uuid
  | .inserting event _ deliveries => event.id :: deliveries.map Delivery.id
  | _ => []

/-- The new rows are those of the fan-out. -/
def Api.Job.FansOut : Job → Prop
  | .inserting event endpoints deliveries =>
    ∃ ids, ids.length = endpoints.length ∧
      deliveries = Ingest.newDeliveries event.id ids endpoints
  | _ => True

theorem Core.used_commitDelivery (c : Core) (stage : Stage) (loaded current : Delivery) :
    (c.commitDelivery stage loaded current).used = c.used := by
  have ids : (Table.update Delivery.id c.deliveries loaded.id (loaded.flush current)).map
      Delivery.id = c.deliveries.map Delivery.id := Table.keys_update (fun _ => rfl)
  simp only [Core.used, Core.commitDelivery, ids]

theorem Core.used_commitRequeued (c : Core) (rows : List Delivery) :
    (c.commitRequeued rows).used = c.used ∧ (c.commitRequeued rows).issued = c.issued := by
  unfold Core.commitRequeued
  induction rows generalizing c with
  | nil => exact ⟨rfl, rfl⟩
  | cons row rest ih =>
    have later := ih (c.commitDelivery .requeued row (requeued row))
    exact ⟨later.1.trans (c.used_commitDelivery _ _ _), later.2⟩

theorem Core.used_commitEvent (c : Core) (event : Event) (deliveries : List Delivery) :
    (c.commitEvent event deliveries).used.Perm
      (event.id :: deliveries.map Delivery.id ++ c.used) := by
  simp only [Core.used, Core.commitEvent, List.map_append, List.map_cons, List.map_nil]
  rw [List.perm_iff_count]
  intro id
  simp only [List.count_append, List.count_cons, List.count_nil]
  omega

theorem Worker.Move.used {env : Env} {clock : ℚ} {shard messageId : Nat} {id : Uuid} {s : Store}
    {q q' : Session} {c : Core} (h : Move env clock shard messageId id s q c q') :
    c.used = s.core.used ∧ c.issued = s.core.issued := by
  cases h with
  | commitDelivering | commitFailed | commitSettled =>
    exact ⟨Core.used_commitDelivery _ _ _ _, rfl⟩
  | _ => exact ⟨rfl, rfl⟩

theorem Worker.Move.endpoints {env : Env} {clock : ℚ} {shard messageId : Nat}
    {id : Uuid} {s : Store}
    {q q' : Session} {c : Core} (h : Move env clock shard messageId id s q c q') :
    c.endpoints = s.core.endpoints := by
  cases h <;> rfl

theorem Core.endpoints_commitRequeued (c : Core) (rows : List Delivery) :
    (c.commitRequeued rows).endpoints = c.endpoints := by
  unfold Core.commitRequeued
  induction rows generalizing c with
  | nil => rfl
  | cons row rest ih => exact ih (c.commitDelivery .requeued row (requeued row))

theorem Api.JobMove.endpoints {streamShards : Nat} {s : Store} {j j' : Job} {c : Core}
    (h : JobMove streamShards s j c j') : c.endpoints = s.core.endpoints := by
  cases h with
  | requeue => exact s.core.endpoints_commitRequeued _
  | @exec _ command _ => cases command <;> rfl
  | _ => rfl

theorem Core.used_exec (c : Core) (streamShards : Nat) (source : Source) (command : Command) :
    (c.exec streamShards source command).used = c.used ∧
      (c.exec streamShards source command).issued = c.issued := by
  cases command <;> exact ⟨rfl, rfl⟩

namespace World

/-- The ids that the request in slot `r` has drawn for rows not inserted yet. -/
def drawn (env : Env) (x : World) (r : Nat) : List Uuid :=
  ((x.requests r).map (fun q => (q.job env.settings.streamShards).drawn)).getD []

structure Allocated (env : Env) (x : World) : Prop where
  endpoints : (x.core.endpoints.map Prod.fst).Nodup
  used : x.core.used.Nodup
  issued : ∀ id ∈ x.core.used, id ∈ x.core.issued
  once : ∀ r, (x.drawn env r).Nodup
  drawn : ∀ r, ∀ id ∈ x.drawn env r, id ∈ x.core.issued ∧ id ∉ x.core.used
  apart : ∀ r r' id, id ∈ x.drawn env r → id ∈ x.drawn env r' → r = r'

variable {env : Env} {l : Label} {x y : World}

theorem allocated_initial (env : Env) (shardOf : Nat → Nat) :
    Allocated env (initial shardOf) where
  endpoints := List.nodup_nil
  used := List.nodup_nil
  issued := fun _ h => absurd h List.not_mem_nil
  once := fun _ => List.nodup_nil
  drawn := fun _ _ h => absurd h List.not_mem_nil
  apart := fun _ _ _ h => absurd h List.not_mem_nil

theorem Allocated.deliveries (inv : Allocated env x) :
    (x.core.deliveries.map Delivery.id).Nodup := (List.nodup_append.mp inv.used).2.1

theorem Allocated.events (inv : Allocated env x) :
    (x.core.events.map Event.id).Nodup := (List.nodup_append.mp inv.used).1

/-- A select by primary key finds every row. -/
theorem Allocated.delivery (inv : Allocated env x) {d : Delivery}
    (listed : d ∈ x.core.deliveries) :
    x.core.delivery d.id = some d := Table.get_of_mem inv.deliveries listed

theorem Allocated.event (inv : Allocated env x) {e : Event} (listed : e ∈ x.core.events) :
    x.core.event e.id = some e := Table.get_of_mem inv.events listed

/-- The ordering that the database holds for an endpoint. -/
theorem Allocated.ordering (inv : Allocated env x) {e : Endpoint}
    (listed : e ∈ x.store.db.endpoints) : x.core.orderings e.id = some e.ordering := by
  have found : Table.get Prod.fst x.core.endpoints e.identity.1 = some e.identity :=
    Table.get_of_mem inv.endpoints (List.mem_map_of_mem listed)
  exact Option.map_eq_some_iff.mpr ⟨e.identity, found, rfl⟩

/-- What a step does to ids: nothing, or an insertion begins, or it commits. -/
inductive Allocates (env : Env) (x y : World) : Prop
  | none (used : y.core.used = x.core.used) (issued : y.core.issued = x.core.issued)
      (drawn : ∀ r, (y.drawn env r).Sublist (x.drawn env r))
  | insert {r : Nat} (used : y.core.used = x.core.used)
      (issued : y.core.issued = y.drawn env r ++ x.core.issued)
      (fresh : (y.drawn env r).Nodup ∧ ∀ id ∈ y.drawn env r, id ∉ x.core.issued)
      (others : ∀ r', r' ≠ r → y.drawn env r' = x.drawn env r')
  | commit {r : Nat} (used : y.core.used.Perm (x.drawn env r ++ x.core.used))
      (issued : y.core.issued = x.core.issued) (done : y.drawn env r = [])
      (others : ∀ r', r' ≠ r → y.drawn env r' = x.drawn env r')

theorem drawn_of_requests (env : Env) (same : y.requests = x.requests) (r : Nat) :
    y.drawn env r = x.drawn env r := by
  unfold drawn
  rw [same]

theorem drawn_update_ne (env : Env) {r r' : Nat} {q : Request} (ne : r' ≠ r)
    (requests : y.requests = Function.update x.requests r (some q)) :
    y.drawn env r' = x.drawn env r' := by
  unfold drawn
  rw [requests, Function.update_of_ne ne]

theorem drawn_update_self (env : Env) {r : Nat} {q : Request}
    (requests : y.requests = Function.update x.requests r (some q)) :
    y.drawn env r = (q.job env.settings.streamShards).drawn := by
  unfold drawn
  rw [requests, Function.update_self]
  rfl

/-- A request that goes on with the same rows, or with none. -/
theorem drawn_update (env : Env) {r : Nat} {q : Request}
    (requests : y.requests = Function.update x.requests r (some q))
    (kept : (q.job env.settings.streamShards).drawn = [] ∨
      (q.job env.settings.streamShards).drawn = x.drawn env r) (r' : Nat) :
    (y.drawn env r').Sublist (x.drawn env r') := by
  by_cases mine : r' = r
  · subst mine
    rw [drawn_update_self env requests]
    rcases kept with none | same
    · exact none ▸ List.nil_sublist _
    · exact same ▸ List.Sublist.refl _
  · rw [drawn_update_ne env mine requests]

theorem drawn_running (env : Env) {r : Nat} {q : Request} (running : x.requests r = some q) :
    x.drawn env r = (q.job env.settings.streamShards).drawn := by
  simp [drawn, running]

theorem Change.allocates (change : Change env x y l) : Allocates env x y := by
  have quiet : y.core.used = x.core.used → y.core.issued = x.core.issued →
      y.requests = x.requests → Allocates env x y := fun used issued requests =>
    .none used issued (fun r => drawn_of_requests env requests r ▸ List.Sublist.refl _)
  cases change with
  | admin _ _ _ _ core _ requests =>
    exact quiet (congrArg Core.used core :) (congrArg Core.issued core :) requests
  | read _ _ _ core _ requests | claim _ _ _ _ _ core _ requests | take _ _ _ core _ requests
  | raise _ _ core _ requests | drop _ _ core _ _ _ requests | schedule _ core _ requests =>
    exact quiet (congrArg Core.used core :) (congrArg Core.issued core :) requests
  | work _ _ _ move _ requests => exact quiet move.used.1 move.used.2 requests
  | @arrive r call _ core _ _ requests =>
    refine .none (congrArg Core.used core :) (congrArg Core.issued core :)
      (drawn_update env requests (Or.inl ?_))
    rw [start_job]
    rfl
  | @fail r q q' _ _ core ended _ requests =>
    refine .none (congrArg Core.used core :) (congrArg Core.issued core :)
      (drawn_update env requests (Or.inl ?_))
    rw [ended]
    rfl
  | @serve r ids q q' _ running move _ requests =>
    have before := drawn_running env running
    have after := drawn_update_self env requests
    have kept := drawn_update env requests
    have others := fun r' (ne : r' ≠ r) => drawn_update_ne env ne requests
    generalize old : Request.job _ q = j, core : y.core = c, new : Request.job _ q' = j' at move
    rw [old] at before
    rw [new] at after kept
    cases move with
    | stay =>
      exact .none (congrArg Core.used core :) (congrArg Core.issued core :)
        (kept (Or.inr before.symm))
    | leave | select | nothing | finish | rollback =>
      exact .none (congrArg Core.used core :) (congrArg Core.issued core :) (kept (Or.inl rfl))
    | requeue =>
      have same := x.core.used_commitRequeued
      exact .none (by rw [core]; exact (same _).1) (by rw [core]; exact (same _).2)
        (kept (Or.inl rfl))
    | exec =>
      have same := x.core.used_exec
      exact .none (by rw [core]; exact (same _ _ _).1) (by rw [core]; exact (same _ _ _).2)
        (kept (Or.inl rfl))
    | @insert event endpoints ids fresh length listed =>
      have now : y.drawn env r = event.id :: ids := by
        rw [after]
        simp only [Job.drawn, Ingest.map_id_newDeliveries length]
      refine .insert (congrArg Core.used core :) (by rw [core, now]; rfl) ?_ others
      rw [now]
      exact fresh
    | @commit event endpoints deliveries =>
      refine .commit ?_ (congrArg Core.issued core :) after others
      rw [core, before]
      exact x.core.used_commitEvent event deliveries

theorem Change.endpoints (change : Change env x y l)
    (distinct : (x.core.endpoints.map Prod.fst).Nodup) :
    (y.core.endpoints.map Prod.fst).Nodup := by
  have same : y.core.endpoints = x.core.endpoints → (y.core.endpoints.map Prod.fst).Nodup :=
    fun h => h ▸ distinct
  cases change with
  | admin _ _ _ grows _ _ _ => exact grows distinct
  | arrive _ core | read _ _ _ core | claim _ _ _ _ _ core | take _ _ _ core | raise _ _ core
  | drop _ _ core | schedule _ core | fail _ _ core =>
    exact same (congrArg Core.endpoints core :)
  | work _ _ _ move _ _ => exact same move.endpoints
  | serve _ _ move _ _ => exact same move.endpoints

theorem Allocated.step (inv : Allocated env x) (change : Change env x y l) : Allocated env y := by
  have endpoints := change.endpoints inv.endpoints
  cases change.allocates with
  | none used issued drawn =>
    refine
      { endpoints := endpoints, used := used ▸ inv.used, issued := ?issued, once := ?once,
        drawn := ?drawn, apart := ?apart }
    case issued =>
      rw [used, issued]
      exact inv.issued
    case once =>
      exact fun r => (inv.once r).sublist (drawn r)
    case drawn =>
      intro r id listed
      rw [used, issued]
      exact inv.drawn r id ((drawn r).subset listed)
    case apart =>
      intro r r' id listed listed'
      exact inv.apart r r' id ((drawn r).subset listed) ((drawn r').subset listed')
  | @insert r₀ used issued fresh others =>
    -- ids issued before are not among the fresh ones
    have old : ∀ r, r ≠ r₀ → ∀ id, id ∈ y.drawn env r → id ∉ y.drawn env r₀ := by
      intro r ne id listed
      rw [others r ne] at listed
      exact fun again => fresh.2 id again (inv.drawn r id listed).1
    refine
      { endpoints := endpoints, used := used ▸ inv.used, issued := ?issued, once := ?once,
        drawn := ?drawn, apart := ?apart }
    case issued =>
      intro id listed
      rw [issued]
      exact List.mem_append_right _ (inv.issued id (used ▸ listed))
    case once =>
      intro r
      by_cases mine : r = r₀
      · exact mine ▸ fresh.1
      · exact others r mine ▸ inv.once r
    case drawn =>
      intro r id listed
      rw [issued, used]
      by_cases mine : r = r₀
      · subst mine
        refine ⟨List.mem_append_left _ listed, fun taken => ?_⟩
        exact fresh.2 id listed (inv.issued id taken)
      · rw [others r mine] at listed
        exact ⟨List.mem_append_right _ (inv.drawn r id listed).1, (inv.drawn r id listed).2⟩
    case apart =>
      intro r r' id listed listed'
      by_cases mine : r = r₀
      · by_cases mine' : r' = r₀
        · exact mine.trans mine'.symm
        · exact absurd (mine ▸ listed) (old r' mine' id listed')
      · by_cases mine' : r' = r₀
        · exact absurd (mine' ▸ listed') (old r mine id listed)
        · rw [others r mine] at listed
          rw [others r' mine'] at listed'
          exact inv.apart r r' id listed listed'
  | @commit r₀ used issued done others =>
    have left : ∀ r, ∀ id ∈ y.drawn env r, r ≠ r₀ ∧ id ∈ x.drawn env r := by
      intro r id listed
      by_cases mine : r = r₀
      · rw [mine, done] at listed
        exact absurd listed List.not_mem_nil
      · exact ⟨mine, others r mine ▸ listed⟩
    refine
      { endpoints := endpoints, used := ?used, issued := ?issued, once := ?once,
        drawn := ?drawn, apart := ?apart }
    case used =>
      rw [used.nodup_iff, List.nodup_append]
      refine ⟨inv.once r₀, inv.used, fun a ha b hb same => ?_⟩
      exact (inv.drawn r₀ a ha).2 (same ▸ hb)
    case issued =>
      intro id listed
      rw [issued]
      rcases List.mem_append.mp (used.mem_iff.mp listed) with drawn | old
      · exact (inv.drawn r₀ id drawn).1
      · exact inv.issued id old
    case once =>
      intro r
      by_cases mine : r = r₀
      · rw [mine, done]
        exact List.nodup_nil
      · exact others r mine ▸ inv.once r
    case drawn =>
      intro r id listed
      obtain ⟨ne, listed⟩ := left r id listed
      rw [issued, used.mem_iff, List.mem_append]
      refine ⟨(inv.drawn r id listed).1, ?_⟩
      rintro (drawn | taken)
      · exact ne (inv.apart r r₀ id listed drawn)
      · exact (inv.drawn r id listed).2 taken
    case apart =>
      intro r r' id listed listed'
      exact inv.apart r r' id (left r id listed).2 (left r' id listed').2

/-- Rows that a request is about to insert are those of its fan-out. -/
def FansOut (env : Env) (x : World) : Prop :=
  ∀ r q, x.requests r = some q → (q.job env.settings.streamShards).FansOut

theorem FansOut.step (inv : FansOut env x) (change : Change env x y l) : FansOut env y := by
  intro r q running
  cases change.serves running with
  | same old => exact inv r q old
  | arrived _ _ idle => exact idle ▸ trivial
  | failed _ _ ended => exact ended ▸ trivial
  | moved _ old move =>
    have before := inv r _ old
    generalize Request.job _ _ = j at move before
    generalize y.core = c at move
    generalize Request.job _ q = j' at move
    cases move with
    | stay => exact before
    | insert _ length _ => exact ⟨_, length, rfl⟩
    | _ => trivial

end World

end Relay
