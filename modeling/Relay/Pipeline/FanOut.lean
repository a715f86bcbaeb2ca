import Relay.Pipeline.Ingestion

/-!
# The rows and entries of one event

Invariants of all runs: a request knows its event, and every row of an event is
appended by the request that committed it, at most once.
-/

namespace Relay

open Enqueue RetryQueue Worker Api

/-- The event that a request accepts is one of its tenant and with its key. -/
def Api.Ingest.EventOf (c : Core) (q : Ingest) (id : Uuid) : Prop :=
  ∃ event, c.event id = some event ∧ event.tenantId = q.tenantId ∧
    event.idempotencyKey = q.body.idempotencyKey

def Api.Ingest.Tracks (c : Core) (q : Ingest) : Prop :=
  match q.pc with
  | .commit event _ deliveries => event.tenantId = q.tenantId ∧
      event.idempotencyKey = q.body.idempotencyKey ∧ ∀ d ∈ deliveries, d.eventId = event.id
  | .enqueue id commands => q.EventOf c id ∧
      ∀ f, Command.xadd f ∈ commands → f.eventId = id ∧ f ∈ c.listing
  | .accepted id => q.EventOf c id
  | _ => True

theorem Api.Ingest.appends_commands (endpoints : List Endpoint) (deliveries : List Delivery) :
    (commands endpoints deliveries).filterMap Command.appends = deliveries.map Delivery.fields := by
  unfold commands
  induction deliveries with
  | nil => rfl
  | cons d rest ih =>
    rw [List.flatMap_cons, List.filterMap_append, ih]
    cases isOrdered endpoints d.endpointId <;> rfl

theorem Api.Ingest.count_commands {endpoints : List Endpoint} {deliveries : List Delivery}
    (distinct : (deliveries.map Delivery.id).Nodup) (f : Fields) :
    (commands endpoints deliveries).count (.xadd f) ≤ 1 := by
  rw [count_xadd, appends_commands]
  refine List.nodup_iff_count_le_one.mp (List.Nodup.of_map Fields.deliveryId ?_) f
  rwa [List.map_map]

namespace World

variable {env : Env} {l : Label} {x y : World}

def Tracked (x : World) : Prop := ∀ r q, x.requests r = some (.ingest q) → q.Tracks x.core

theorem Appends.listing (appends : Appends env x y l) {f : Fields} (old : f ∈ x.core.listing) :
    f ∈ y.core.listing := by
  cases appends with
  | none listing => exact listing.symm ▸ old
  | append _ _ _ _ core =>
    rw [core]
    exact old
  | commit _ _ _ _ core =>
    rw [core]
    simp only [Core.listing, Core.commitEvent, List.map_append]
    exact List.mem_append_left _ old

theorem EventOf.mono {c c' : Core} {q : Ingest} {id : Uuid} (old : q.EventOf c id)
    (ext : c.Extends c') : q.EventOf c' id := by
  obtain ⟨event, found, same⟩ := old
  exact ⟨event, ext.events found, same⟩

theorem Tracks.mono {q : Ingest} (old : q.Tracks x.core) (change : Change env x y l)
    (appends : Appends env x y l) : q.Tracks y.core := by
  unfold Ingest.Tracks at old ⊢
  split at old
  · exact old
  · refine ⟨EventOf.mono old.1 change.extends, fun f listed => ?_⟩
    exact ⟨(old.2 f listed).1, appends.listing (old.2 f listed).2⟩
  · exact EventOf.mono old change.extends
  · trivial

theorem Tracked.step (tracked : Tracked x) (inv : Consistent env x)
    (next : World.step env l x = some y) : Tracked y := by
  have change := step_change next
  have appends := step_appends next
  have mono : ∀ r q, x.requests r = some (.ingest q) → q.Tracks y.core :=
    fun r q running => Tracks.mono (tracked r q running) change appends
  -- the request of slot `r` is new, the others are as before
  have updated : ∀ {r : Nat} {q : Ingest},
      y.requests = Function.update x.requests r (some (.ingest q)) → q.Tracks y.core →
      Tracked y := by
    intro r q requests tracks r' q' running
    by_cases mine : r' = r
    · subst mine
      rw [requests, Function.update_self] at running
      cases running
      exact tracks
    · rw [requests, Function.update_of_ne mine] at running
      exact mono r' q' running
  cases step_ingests next with
  | none _ _ requests => exact fun r q running => mono r q ((requests r q).mp running)
  | @arrive r tenantId body _ _ _ requests =>
    refine updated requests ?_
    by_cases keyed : body.idempotencyKey.isSome = true <;>
      simp [Ingest.Tracks, Ingest.start, keyed]
  | fail _ _ failed requests =>
    refine updated requests ?_
    rw [(Ingest.fail_steps failed).1]
    trivial
  | @serve r ids q q' label running step requests =>
    refine updated requests ?_
    have before := tracked r q running
    have fansOut := inv.fansOut r _ running
    obtain ⟨pc', rfl, steps⟩ := Ingest.step_steps step
    generalize store : y.store = s at steps
    have core : y.core = s.core := congrArg Store.core store
    unfold Ingest.Tracks at before
    cases steps with
    | missing | taken | conflict | rollback => trivial
    | @found existing _ listed =>
      obtain ⟨key, keyed, first⟩ := Option.bind_eq_some_iff.mp listed
      have member : existing ∈ x.core.events := List.mem_of_find?_eq_some first
      have same := List.find?_some first
      simp only [decide_eq_true_eq] at same
      refine ⟨existing, ?_, same.1, same.2.trans keyed.symm⟩
      rw [core]
      exact inv.allocated.event member
    | insert => exact ⟨rfl, rfl, fun d listed => (Ingest.mem_newDeliveries listed).1⟩
    | @commit event endpoints deliveries pc =>
      simp only [pc] at before
      rw [Ingest.core_commitEvent] at core
      have fresh : event.id ∉ x.core.events.map Event.id := by
        have drawn := inv.allocated.drawn r event.id
        rw [drawn_running env running] at drawn
        simp only [Request.job, Ingest.job, pc, Job.drawn] at drawn
        exact fun taken => (drawn List.mem_cons_self).2 (List.mem_append_left _ taken)
      refine ⟨⟨event, ?_, before.1, before.2.1⟩, fun f listed => ?_⟩
      · have absent : Table.get Event.id x.core.events event.id = none :=
          Table.get_eq_none.mpr fresh
        rw [core]
        simp only [Core.event, Core.commitEvent, Table.get_append, absent]
        simp [Table.get]
      · obtain ⟨d, member, rfl⟩ := Ingest.mem_commands.mp listed
        refine ⟨before.2.2 d member, ?_⟩
        rw [core]
        simp only [Core.listing, Core.commitEvent, List.map_append]
        exact List.mem_append_right _ (List.mem_map_of_mem member)
    | @exec id c rest pc =>
      have after := mono r q running
      unfold Ingest.Tracks at after
      simp only [pc] at after
      exact ⟨after.1, fun f listed => after.2 f (List.mem_cons_of_mem _ listed)⟩
    | finish pc =>
      have after := mono r q running
      unfold Ingest.Tracks at after
      simp only [pc] at after
      exact after.1

/-- What a request has yet to append belongs to the event that it accepts. -/
theorem Tracked.left (tracked : Tracked x) {r : Nat} {f : Fields}
    (promised : Command.xadd f ∈ x.left r) : f ∈ x.core.listing ∧
      ∃ q, x.requests r = some (.ingest q) ∧ q.EventOf x.core f.eventId ∧
        ∃ commands, q.pc = .enqueue f.eventId commands ∧ .xadd f ∈ commands := by
  unfold World.left at promised
  split at promised
  · rename_i q running
    have tracks := tracked r q running
    unfold Ingest.left at promised
    split at promised
    · rename_i id commands pc
      unfold Ingest.Tracks at tracks
      simp only [pc] at tracks
      obtain ⟨rfl, listed⟩ := tracks.2 f promised
      exact ⟨listed, q, running, tracks.1, commands, pc, promised⟩
    · exact absurd promised List.not_mem_nil
  · exact absurd promised List.not_mem_nil

/-- The rows that a request is about to insert are new. -/
theorem Consistent.not_listed (inv : Consistent env x) {r : Nat} {q : Ingest} {event : Event}
    {endpoints : List Endpoint} {deliveries : List Delivery}
    (running : x.requests r = some (.ingest q)) (pc : q.pc = .commit event endpoints deliveries) :
    (deliveries.map Delivery.id).Nodup ∧
      (∀ d ∈ deliveries, d.fields ∉ x.core.listing) ∧
        ∀ f ∈ x.core.listing, f.eventId ≠ event.id := by
  have once := inv.allocated.once r
  have drawn := inv.allocated.drawn r
  rw [drawn_running env running] at once drawn
  simp only [Request.job, Ingest.job, pc, Job.drawn] at once drawn
  refine ⟨(List.nodup_cons.mp once).2, fun d member listed => ?_, fun f listed same => ?_⟩
  · obtain ⟨row, inTable, fields⟩ := List.mem_map.mp listed
    have key : row.id = d.id := congrArg Fields.deliveryId fields
    refine (drawn d.id (List.mem_cons_of_mem _ (List.mem_map_of_mem member))).2 ?_
    exact List.mem_append_right _ (key ▸ List.mem_map_of_mem inTable)
  · obtain ⟨row, inTable, rfl⟩ := List.mem_map.mp listed
    obtain ⟨⟨e, found⟩, _⟩ := inv.core.rows row inTable
    have key : e.id = event.id := (Table.get_key found).trans same
    refine (drawn event.id List.mem_cons_self).2 (List.mem_append_left _ ?_)
    exact key ▸ List.mem_map_of_mem (Table.get_mem found)

/-- Every entry of a fan-out is appended at most once, by one request. -/
structure AppendsOnce (x : World) : Prop where
  once : ∀ r f, (x.left r).count (.xadd f) ≤ 1
  alone : ∀ r r' f, Command.xadd f ∈ x.left r → Command.xadd f ∈ x.left r' → r = r'
  fresh : ∀ r f, Command.xadd f ∈ x.left r → LogEntry.xadd .ingest f ∉ x.core.log
  atMost : ∀ f, x.core.log.count (.xadd .ingest f) ≤ 1
  known : ∀ f, LogEntry.xadd .ingest f ∈ x.core.log → f ∈ x.core.listing

theorem tracked_initial (shardOf : Nat → Nat) : Tracked (initial shardOf) := by
  intro r q running
  cases running

theorem appendsOnce_initial (shardOf : Nat → Nat) : AppendsOnce (initial shardOf) where
  once := fun _ _ => Nat.zero_le 1
  alone := fun _ _ _ listed => absurd listed List.not_mem_nil
  fresh := fun _ _ listed => absurd listed List.not_mem_nil
  atMost := fun _ => Nat.zero_le 1
  known := fun _ logged => absurd logged List.not_mem_nil

theorem AppendsOnce.step (once : AppendsOnce x) (tracked : Tracked x) (inv : Consistent env x)
    (appends : Appends env x y l) : AppendsOnce y := by
  have grown : ∀ {f}, f ∈ x.core.listing → f ∈ y.core.listing := appends.listing
  cases appends with
  | @none more _ _ log only kept =>
    have left := kept.sub
    have silent : ∀ f, LogEntry.xadd .ingest f ∉ more := fun f logged => only _ logged
    have same : ∀ f, LogEntry.xadd .ingest f ∈ y.core.log ↔
        LogEntry.xadd .ingest f ∈ x.core.log := by
      intro f
      rw [log, List.mem_append]
      exact ⟨fun h => h.resolve_left (silent f), Or.inr⟩
    refine
      { once := ?once, alone := ?alone, fresh := ?fresh, atMost := ?atMost, known := ?known }
    case once =>
      intro r f
      exact Nat.le_trans ((left r).count_le _) (once.once r f)
    case alone =>
      intro r r' f h h'
      exact once.alone r r' f ((left r).subset h) ((left r').subset h')
    case fresh =>
      intro r f h
      exact fun logged => once.fresh r f ((left r).subset h) ((same f).mp logged)
    case atMost =>
      intro f
      rw [log, List.count_append, List.count_eq_zero_of_not_mem (silent f), Nat.zero_add]
      exact once.atMost f
    case known =>
      intro f h
      exact grown (once.known f ((same f).mp h))
  | @append r q id f rest running pc goes others core =>
    have before : x.left r = .xadd f :: rest := by
      rw [left_of_ingest running]
      simp only [Ingest.left, pc]
    have after : y.left r = rest := left_of_ingest goes
    have elsewhere : ∀ r', r' ≠ r → y.left r' = x.left r' := fun r' ne => by
      simp only [left, others r' ne]
    have log : y.core.log = .xadd .ingest f :: x.core.log := (congrArg Core.log core :)
    have shorter : ∀ r', (y.left r').Sublist (x.left r') := by
      intro r'
      by_cases mine : r' = r
      · subst mine
        rw [before, after]
        exact List.sublist_cons_self _ _
      · exact elsewhere r' mine ▸ List.Sublist.refl _
    have gone : ∀ r', Command.xadd f ∉ y.left r' := by
      intro r' listed
      have mine := once.alone r' r f ((shorter r').subset listed) (before ▸ List.mem_cons_self)
      subst mine
      have count := once.once r' f
      rw [before, List.count_cons_self] at count
      rw [after] at listed
      have positive := List.count_pos_iff.mpr listed
      omega
    have unlogged : LogEntry.xadd .ingest f ∉ x.core.log :=
      once.fresh r f (before ▸ List.mem_cons_self)
    refine
      { once := ?once, alone := ?alone, fresh := ?fresh, atMost := ?atMost, known := ?known }
    case once =>
      intro r' g
      exact Nat.le_trans ((shorter r').count_le _) (once.once r' g)
    case alone =>
      intro r₁ r₂ g h h'
      exact once.alone r₁ r₂ g ((shorter r₁).subset h) ((shorter r₂).subset h')
    case fresh =>
      intro r' g h
      rw [log]
      intro logged
      rcases List.mem_cons.mp logged with same | logged
      · cases same
        exact gone r' h
      · exact once.fresh r' g ((shorter r').subset h) logged
    case atMost =>
      intro g
      rw [log, List.count_cons]
      by_cases same : g = f
      · subst same
        rw [List.count_eq_zero_of_not_mem unlogged]
        simp
      · have ne : ((LogEntry.xadd .ingest f) == .xadd .ingest g) = false := by
          simpa using Ne.symm same
        simpa [ne] using once.atMost g
    case known =>
      intro g h
      rw [log] at h
      rcases List.mem_cons.mp h with same | logged
      · cases same
        exact grown (tracked.left (r := r) (before ▸ List.mem_cons_self)).1
      · exact grown (once.known g logged)
  | @commit r q event endpoints deliveries running pc goes others core =>
    obtain ⟨distinct, new, _⟩ := inv.not_listed running pc
    have after : y.left r = Ingest.commands endpoints deliveries := left_of_ingest goes
    have elsewhere : ∀ r', r' ≠ r → y.left r' = x.left r' := fun r' ne => by
      simp only [left, others r' ne]
    have log : y.core.log = x.core.log := (congrArg Core.log core :)
    have unlisted : ∀ f, Command.xadd f ∈ y.left r → f ∉ x.core.listing := by
      intro f listed
      rw [after] at listed
      obtain ⟨d, member, rfl⟩ := Ingest.mem_commands.mp listed
      exact new d member
    refine
      { once := ?once, alone := ?alone, fresh := ?fresh, atMost := ?atMost, known := ?known }
    case once =>
      intro r' f
      by_cases mine : r' = r
      · subst mine
        rw [after]
        exact Ingest.count_commands distinct f
      · exact elsewhere r' mine ▸ once.once r' f
    case alone =>
      intro r₁ r₂ f h h'
      by_cases mine : r₁ = r
      · by_cases mine' : r₂ = r
        · exact mine.trans mine'.symm
        · rw [elsewhere r₂ mine'] at h'
          exact absurd (tracked.left h').1 (unlisted f (mine ▸ h))
      · rw [elsewhere r₁ mine] at h
        by_cases mine' : r₂ = r
        · exact absurd (tracked.left h).1 (unlisted f (mine' ▸ h'))
        · exact once.alone r₁ r₂ f h (elsewhere r₂ mine' ▸ h')
    case fresh =>
      intro r' f h
      rw [log]
      by_cases mine : r' = r
      · exact fun logged => unlisted f (mine ▸ h) (once.known f logged)
      · exact once.fresh r' f (elsewhere r' mine ▸ h)
    case atMost =>
      intro f
      exact log ▸ once.atMost f
    case known =>
      intro f h
      exact grown (once.known f (log ▸ h))

end World

end Relay
