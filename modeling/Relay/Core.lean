import Relay.Api.Events
import Mathlib.Data.List.Infix

/-!
# The durable core of the store

What the delivery guarantees speak about: delivery and event rows, the ordering
of endpoints, the queues, the ordered lists and the history. Locks, breakers,
buckets and slots are left out. Every store operation acts on the core as an
operation of its own or not at all, and every one of them extends it: rows,
entries and history are only ever added to.
-/

namespace Relay

open Enqueue RetryQueue Api

structure Core where
  deliveries : List Delivery
  events : List Event
  endpoints : List (Uuid × Ordering)
  queues : Queues
  ordered : Uuid → List Uuid
  log : List LogEntry
  issued : List Uuid

/-- What never changes of an endpoint once it is created. -/
def Endpoint.identity (e : Endpoint) : Uuid × Ordering := (e.id, e.ordering)

def Store.core (s : Store) : Core where
  deliveries := s.db.deliveries
  events := s.db.events
  endpoints := s.db.endpoints.map Endpoint.identity
  queues := s.queues
  ordered := s.ordered
  log := s.log
  issued := s.issued

namespace Core

def delivery (c : Core) (id : Uuid) : Option Delivery := Table.get Delivery.id c.deliveries id

def event (c : Core) (id : Uuid) : Option Event := Table.get Event.id c.events id

def orderings (c : Core) (id : Uuid) : Option Ordering :=
  (Table.get Prod.fst c.endpoints id).map Prod.snd

/-! Operations -/

def enqueueOrdered (c : Core) (endpointId deliveryId : Uuid) : Core :=
  { c with
    ordered := Function.update c.ordered endpointId (c.ordered endpointId ++ [deliveryId])
    log := .rpush endpointId deliveryId :: c.log }

def popHead (c : Core) (endpointId deliveryId : Uuid) : Core :=
  { c with
    ordered := Function.update c.ordered endpointId ((c.ordered endpointId).erase deliveryId) }

def enqueueDelivery (c : Core) (streamShards : Nat) (source : Source) (f : Fields) : Core :=
  { c with
    queues := c.queues.xadd (shardFor streamShards f.endpointId) f
    log := .xadd source f :: c.log }

def scheduleRetry (c : Core) (m : Member) (dueAt : ℚ) : Core :=
  { c with queues := c.queues.scheduleRetry m dueAt }

def removeFromRetryQueue (c : Core) (m : Member) : Core :=
  { c with queues := c.queues.removeFromRetryQueue m }

def moveDueToStreams (c : Core) (now : ℚ) (limit : Nat) : Core :=
  { c with queues := c.queues.moveDueToStreams now limit }

def onStream (c : Core) (shard : Nat) (f : StreamLog Fields → StreamLog Fields) : Core :=
  { c with
    queues := { c.queues with
      streams := Function.update c.queues.streams shard (f (c.queues.streams shard)) } }

def commitDelivery (c : Core) (stage : Stage) (loaded current : Delivery) : Core :=
  { c with
    deliveries := Table.update Delivery.id c.deliveries loaded.id (loaded.flush current)
    log := ((c.delivery loaded.id).map
      (fun row => LogEntry.committed stage (loaded.flush current row))).toList ++ c.log }

def logAttempt (c : Core) (deliveryId : Uuid) (time : ℚ) : Core :=
  { c with log := .attempt deliveryId time :: c.log }

def issue (c : Core) (ids : List Uuid) : Core := { c with issued := ids ++ c.issued }

def commitEvent (c : Core) (event : Event) (deliveries : List Delivery) : Core :=
  { c with events := c.events ++ [event], deliveries := c.deliveries ++ deliveries }

def exec (streamShards : Nat) (source : Source) (c : Core) : Command → Core
  | .zrem m => c.removeFromRetryQueue m
  | .rpush endpointId deliveryId => c.enqueueOrdered endpointId deliveryId
  | .xadd f => c.enqueueDelivery streamShards source f

def commitRequeued (c : Core) (rows : List Delivery) : Core :=
  rows.foldl (fun c row => c.commitDelivery .requeued row (requeued row)) c

end Core

namespace Store

variable (s : Store)

@[simp] theorem core_deliveries : s.core.deliveries = s.db.deliveries := rfl
@[simp] theorem core_events : s.core.events = s.db.events := rfl
@[simp] theorem core_queues : s.core.queues = s.queues := rfl
@[simp] theorem core_ordered : s.core.ordered = s.ordered := rfl
@[simp] theorem core_log : s.core.log = s.log := rfl
@[simp] theorem core_issued : s.core.issued = s.issued := rfl
@[simp] theorem core_delivery (id : Uuid) : s.core.delivery id = s.db.delivery id := rfl
@[simp] theorem core_event (id : Uuid) : s.core.event id = s.db.event id := rfl

theorem core_orderings (id : Uuid) :
    s.core.orderings id = (s.db.endpoint id).map Endpoint.ordering := by
  have found : Table.get Prod.fst s.core.endpoints id =
      (s.db.endpoint id).map Endpoint.identity := Table.get_map (fun _ => rfl) _
  rw [Core.orderings, found, Option.map_map]
  rfl

@[simp] theorem core_allowRequest (endpointId : Uuid) (now : ℚ) :
    (s.allowRequest endpointId now).1.core = s.core := rfl

@[simp] theorem core_takeToken (tenantId : Uuid) (rate : Nat) (clock now : ℚ) :
    (s.takeToken tenantId rate clock now).1.core = s.core := rfl

@[simp] theorem core_acquireSlot (tenantId : Uuid) (cap : Nat) (clock now : ℚ) (token : Uuid) :
    (s.acquireSlot tenantId cap clock now token).1.core = s.core := rfl

@[simp] theorem core_exec (streamShards : Nat) (source : Source) (c : Command) :
    (c.exec streamShards source s).core = s.core.exec streamShards source c := by
  cases c <;> rfl

@[simp] theorem core_commitRequeued (rows : List Delivery) :
    (commitRequeued s rows).core = s.core.commitRequeued rows := by
  unfold Api.commitRequeued Core.commitRequeued
  induction rows generalizing s with
  | nil => rfl
  | cons row rest ih => exact ih (s.commitDelivery .requeued row (requeued row))

end Store

/-- Updating endpoints in a way that keeps their identity is not seen in the core. -/
theorem Db.identity_update (db : Db) (k : Uuid) {f : Endpoint → Endpoint}
    (keeps : ∀ e, (f e).identity = e.identity) :
    (Table.update Endpoint.id db.endpoints k f).map Endpoint.identity =
      db.endpoints.map Endpoint.identity := by
  unfold Table.update
  rw [List.map_map]
  apply List.map_congr_left
  intro e _
  by_cases same : e.id = k
  · simp [same, keeps]
  · simp [same]

@[simp] theorem Store.core_setEndpointStatus (s : Store) (id : Uuid) (status : EndpointStatus) :
    (s.setEndpointStatus id status).core = s.core := by
  have same := s.db.identity_update id (f := fun e => { e with status := status }) (fun _ => rfl)
  unfold Store.core Store.setEndpointStatus Db.setEndpointStatus
  rw [same]

namespace Core

/-! Extension -/

/-- Rows keep their identity, the other tables, the history and the streams grow. -/
structure Extends (c c' : Core) : Prop where
  rows : ∀ {id r}, c.delivery id = some r →
    ∃ r', c'.delivery id = some r' ∧ r'.eventId = r.eventId ∧ r'.endpointId = r.endpointId
  events : ∀ {id e}, c.event id = some e → c'.event id = some e
  endpoints : c.endpoints <+: c'.endpoints
  log : c.log <:+ c'.log
  entries : ∀ n, (c.queues.streams n).entries <+: (c'.queues.streams n).entries
  issued : ∀ id ∈ c.issued, id ∈ c'.issued

namespace Extends

variable {c c' c'' : Core}

theorem refl (c : Core) : c.Extends c where
  rows := fun h => ⟨_, h, rfl, rfl⟩
  events := id
  endpoints := List.prefix_refl _
  log := List.suffix_refl _
  entries := fun _ => List.prefix_refl _
  issued := fun _ h => h

theorem trans (first : c.Extends c') (second : c'.Extends c'') : c.Extends c'' where
  rows := by
    intro id r h
    obtain ⟨r', found, event, endpoint⟩ := first.rows h
    obtain ⟨r'', found', event', endpoint'⟩ := second.rows found
    exact ⟨r'', found', event'.trans event, endpoint'.trans endpoint⟩
  events := fun h => second.events (first.events h)
  endpoints := first.endpoints.trans second.endpoints
  log := first.log.trans second.log
  entries := fun n => (first.entries n).trans (second.entries n)
  issued := fun id h => second.issued id (first.issued id h)

theorem orderings (h : c.Extends c') {id : Uuid} {o : Ordering}
    (known : c.orderings id = some o) : c'.orderings id = some o := by
  obtain ⟨more, same⟩ := h.endpoints
  obtain ⟨e, found, ordering⟩ := Option.map_eq_some_iff.mp known
  refine Option.map_eq_some_iff.mpr ⟨e, ?_, ordering⟩
  rw [← same]
  exact Table.get_append_of_some more found

theorem logged (h : c.Extends c') {l : LogEntry} (old : l ∈ c.log) : l ∈ c'.log :=
  h.log.subset old

/-- Only the ordered lists, the retry set or the pending lists change. -/
theorem of_same (deliveries : c'.deliveries = c.deliveries) (events : c'.events = c.events)
    (endpoints : c.endpoints <+: c'.endpoints)
    (log : c.log <:+ c'.log)
    (entries : ∀ n, (c.queues.streams n).entries <+: (c'.queues.streams n).entries)
    (issued : c'.issued = c.issued) : c.Extends c' where
  rows := by
    intro id r h
    exact ⟨r, by simpa only [delivery, deliveries] using h, rfl, rfl⟩
  events := by
    intro id e h
    simpa only [event, events] using h
  endpoints := endpoints
  log := log
  entries := entries
  issued := fun id h => issued.symm ▸ h

end Extends

variable (c : Core)

/-- A stream changes at one shard. -/
theorem entries_update {streams : Nat → StreamLog Fields} {shard : Nat} {s : StreamLog Fields}
    (grows : (streams shard).entries <+: s.entries) (n : Nat) :
    (streams n).entries <+: (Function.update streams shard s n).entries := by
  by_cases same : n = shard
  · subst same
    rwa [Function.update_self]
  · rw [Function.update_of_ne same]

theorem entries_xadd (q : Queues) (shard : Nat) (f : Fields) (n : Nat) :
    (q.streams n).entries <+: ((q.xadd shard f).streams n).entries :=
  entries_update ⟨[f], rfl⟩ n

theorem entries_moveDueToStreams (q : Queues) (now : ℚ) (limit n : Nat) :
    (q.streams n).entries <+: ((q.moveDueToStreams now limit).streams n).entries := by
  apply Queues.moveDueToStreams_induction
    (P := fun q' => (q.streams n).entries <+: (q'.streams n).entries)
  · exact List.prefix_refl _
  · intro q' m grown _ _
    exact grown.trans (entries_xadd { q' with retries := q'.retries.zrem m } m.shard m.fields n)

theorem extends_scheduleRetry (m : Member) (dueAt : ℚ) : c.Extends (c.scheduleRetry m dueAt) :=
  .of_same rfl rfl (List.prefix_refl _) (List.suffix_refl _) (fun _ => List.prefix_refl _) rfl

theorem extends_removeFromRetryQueue (m : Member) : c.Extends (c.removeFromRetryQueue m) :=
  .of_same rfl rfl (List.prefix_refl _) (List.suffix_refl _) (fun _ => List.prefix_refl _) rfl

theorem extends_moveDueToStreams (now : ℚ) (limit : Nat) :
    c.Extends (c.moveDueToStreams now limit) :=
  .of_same rfl rfl (List.prefix_refl _) (List.suffix_refl _)
    (entries_moveDueToStreams c.queues now limit) rfl

theorem extends_onStream (shard : Nat) {f : StreamLog Fields → StreamLog Fields}
    (same : ∀ s, (f s).entries = s.entries) : c.Extends (c.onStream shard f) := by
  refine .of_same rfl rfl (List.prefix_refl _) (List.suffix_refl _) (entries_update ?_) rfl
  rw [same]

theorem extends_enqueueOrdered (endpointId deliveryId : Uuid) :
    c.Extends (c.enqueueOrdered endpointId deliveryId) :=
  .of_same rfl rfl (List.prefix_refl _) (List.suffix_cons _ _) (fun _ => List.prefix_refl _) rfl

theorem extends_popHead (endpointId deliveryId : Uuid) :
    c.Extends (c.popHead endpointId deliveryId) :=
  .of_same rfl rfl (List.prefix_refl _) (List.suffix_refl _) (fun _ => List.prefix_refl _) rfl

theorem extends_enqueueDelivery (streamShards : Nat) (source : Source) (f : Fields) :
    c.Extends (c.enqueueDelivery streamShards source f) :=
  .of_same rfl rfl (List.prefix_refl _) (List.suffix_cons _ _)
    (entries_xadd c.queues (shardFor streamShards f.endpointId) f) rfl

theorem extends_logAttempt (deliveryId : Uuid) (time : ℚ) :
    c.Extends (c.logAttempt deliveryId time) :=
  .of_same rfl rfl (List.prefix_refl _) (List.suffix_cons _ _) (fun _ => List.prefix_refl _) rfl

theorem delivery_commitDelivery (stage : Stage) (loaded current : Delivery) (id : Uuid) :
    (c.commitDelivery stage loaded current).delivery id =
      if id = loaded.id then (c.delivery id).map (loaded.flush current) else c.delivery id :=
  Table.get_update (fun _ => rfl)

theorem extends_commitDelivery (stage : Stage) (loaded current : Delivery) :
    c.Extends (c.commitDelivery stage loaded current) where
  rows := by
    intro id r h
    rw [delivery_commitDelivery, h]
    split
    · exact ⟨loaded.flush current r, rfl, rfl, rfl⟩
    · exact ⟨r, rfl, rfl, rfl⟩
  events := id
  endpoints := List.prefix_refl _
  log := List.suffix_append _ _
  entries := fun _ => List.prefix_refl _
  issued := fun _ h => h

theorem extends_commitRequeued (rows : List Delivery) : c.Extends (c.commitRequeued rows) := by
  unfold commitRequeued
  induction rows generalizing c with
  | nil => exact .refl c
  | cons row rest ih =>
    exact (c.extends_commitDelivery .requeued row (requeued row)).trans (ih _)

theorem extends_issue (ids : List Uuid) : c.Extends (c.issue ids) where
  rows := fun h => ⟨_, h, rfl, rfl⟩
  events := id
  endpoints := List.prefix_refl _
  log := List.suffix_refl _
  entries := fun _ => List.prefix_refl _
  issued := fun _ h => List.mem_append_right _ h

theorem extends_commitEvent (event : Event) (deliveries : List Delivery) :
    c.Extends (c.commitEvent event deliveries) where
  rows := fun h => ⟨_, Table.get_append_of_some _ h, rfl, rfl⟩
  events := fun h => Table.get_append_of_some _ h
  endpoints := List.prefix_refl _
  log := List.suffix_refl _
  entries := fun _ => List.prefix_refl _
  issued := fun _ h => h

theorem extends_exec (streamShards : Nat) (source : Source) (command : Command) :
    c.Extends (c.exec streamShards source command) := by
  cases command with
  | zrem m => exact c.extends_removeFromRetryQueue m
  | rpush endpointId deliveryId => exact c.extends_enqueueOrdered endpointId deliveryId
  | xadd f => exact c.extends_enqueueDelivery streamShards source f

end Core

end Relay
