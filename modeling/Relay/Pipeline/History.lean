import Relay.Pipeline.Allocation
import Relay.Pipeline.Holding

/-!
# What history says of entries, copies and commands

Invariants of all runs that never become false again. Every stream entry,
member, command and session copy belongs to a row; an entry of an ordered
endpoint was pushed; a settled row was attempted.
-/

namespace Relay

open Enqueue RetryQueue Worker Api

def Delivery.fields (d : Delivery) : Fields := ⟨d.id, d.eventId, d.endpointId⟩

namespace Core

def Pushed (c : Core) (endpointId deliveryId : Uuid) : Prop :=
  LogEntry.rpush endpointId deliveryId ∈ c.log

def Attempted (c : Core) (id : Uuid) : Prop := ∃ time, LogEntry.attempt id time ∈ c.log

def EverSettled (c : Core) (id : Uuid) : Prop :=
  ∃ stage row, LogEntry.committed stage row ∈ c.log ∧ row.id = id ∧ row.status.Settled

/-- A row with these fields exists. -/
def RowOf (c : Core) (f : Fields) : Prop :=
  ∃ r, c.delivery f.deliveryId = some r ∧ r.eventId = f.eventId ∧ r.endpointId = f.endpointId

/-- The row exists and was pushed if its endpoint is ordered; `ahead` are
commands that will have been issued. -/
structure KnownAfter (c : Core) (ahead : List Command) (f : Fields) : Prop where
  row : c.RowOf f
  pushed : ∃ o, c.orderings f.endpointId = some o ∧
    (o = .ordered → c.Pushed f.endpointId f.deliveryId ∨
      Command.rpush f.endpointId f.deliveryId ∈ ahead)

abbrev Known (c : Core) (f : Fields) : Prop := c.KnownAfter [] f

structure Sound (streamShards : Nat) (c : Core) : Prop where
  rows : ∀ r ∈ c.deliveries,
    (∃ e, c.event r.eventId = some e) ∧ ∃ o, c.orderings r.endpointId = some o
  entries : ∀ n, ∀ f ∈ (c.queues.streams n).entries,
    c.Known f ∧ n = shardFor streamShards f.endpointId
  members : ∀ m, c.queues.retries.Mem m →
    c.Known m.fields ∧ m.shard = shardFor streamShards m.endpointId
  listed : ∀ endpointId, ∀ d ∈ c.ordered endpointId,
    ∃ r, c.delivery d = some r ∧ r.endpointId = endpointId
  settled : ∀ r ∈ c.deliveries, r.status.Settled → c.EverSettled r.id
  everSettled : ∀ id, c.EverSettled id → c.Attempted id
  attempted : ∀ id, c.Attempted id → ∃ f, f.deliveryId = id ∧ c.Known f

variable {c c' : Core} {f : Fields} {streamShards : Nat}

theorem RowOf.mono (old : c.RowOf f) (ext : c.Extends c') : c'.RowOf f := by
  obtain ⟨r, found, event, endpoint⟩ := old
  obtain ⟨r', found', event', endpoint'⟩ := ext.rows found
  exact ⟨r', found', event'.trans event, endpoint'.trans endpoint⟩

theorem KnownAfter.mono {ahead : List Command} (old : c.KnownAfter ahead f)
    (ext : c.Extends c') : c'.KnownAfter ahead f where
  row := old.row.mono ext
  pushed := by
    obtain ⟨o, known, pushed⟩ := old.pushed
    exact ⟨o, ext.orderings known, fun ordered => (pushed ordered).imp_left ext.logged⟩

theorem EverSettled.mono {id : Uuid} (old : c.EverSettled id) (ext : c.Extends c') :
    c'.EverSettled id := by
  obtain ⟨stage, row, logged, same, settled⟩ := old
  exact ⟨stage, row, ext.logged logged, same, settled⟩

theorem Attempted.mono {id : Uuid} (old : c.Attempted id) (ext : c.Extends c') :
    c'.Attempted id := old.imp (fun _ logged => ext.logged logged)

theorem Known.fields_eq (known : c.Known f) {d : Delivery}
    (found : c.delivery f.deliveryId = some d) : d.fields = f := by
  obtain ⟨r, same, event, endpoint⟩ := known.row
  rw [found] at same
  cases same
  have key : d.id = f.deliveryId := Table.get_key found
  simp [Delivery.fields, key, event, endpoint]

theorem Known.pushed_of_ordered (known : c.Known f)
    (ordered : c.orderings f.endpointId = some .ordered) :
    c.Pushed f.endpointId f.deliveryId := by
  obtain ⟨o, same, pushed⟩ := known.pushed
  rw [ordered] at same
  cases same
  simpa using pushed rfl

end Core

/-- Session copies of the rows that an entry names. -/
structure Worker.Copies (c : Core) (f : Fields) (d : Delivery) (e : Endpoint) : Prop where
  fields : d.fields = f
  key : e.id = d.endpointId
  ordering : c.orderings e.id = some e.ordering

def Worker.Session.Sound (c : Core) (f : Fields) : Session → Prop
  | .start | .leaving _ | .finished => True
  | .loaded d => d.fields = f ∧ ¬ d.status.Settled
  | .queueing d e | .waiting d e | .gated d e => Copies c f d e ∧ ¬ d.status.Settled
  | .sending d e => Copies c f d e ∧ d.status = .delivering
  | .receiving d e => Copies c f d e ∧ d.status = .delivering ∧ c.Attempted d.id
  | .committing d e outcome delay => Copies c f d e ∧ d.status = .delivering ∧
      c.Attempted d.id ∧ outcome.fields = f ∧
      ((delay = none ∧ outcome.status.Settled) ∨ (delay ≠ none ∧ outcome.status = .failed))
  | .scheduling d e _ => Copies c f d e ∧ d.status = .failed
  | .refreshing d e => Copies c f d e
  | .recording d e => Copies c f d e ∧ (d.status.Settled → c.EverSettled d.id)
  | .popping d e => Copies c f d e ∧ e.ordering = .ordered ∧ d.status.Settled ∧
      c.EverSettled d.id

def Api.Command.Sound (c : Core) (ahead : List Command) : Command → Prop
  | .zrem _ => True
  | .rpush endpointId deliveryId =>
    ∃ r, c.delivery deliveryId = some r ∧ r.endpointId = endpointId
  | .xadd f => c.KnownAfter ahead f

/-- Every command is sound when those before it have been issued. -/
def Api.CommandsSound (c : Core) (ahead : List Command) : List Command → Prop
  | [] => True
  | command :: rest => command.Sound c ahead ∧ CommandsSound c (command :: ahead) rest

def Api.Job.Sound (c : Core) : Job → Prop
  | .idle | .ended => True
  | .inserting _ endpoints _ => ∀ e ∈ endpoints, c.orderings e.id = some e.ordering
  | .selected rows => ∀ d ∈ rows, c.Known d.fields ∧ d.status = .dead
  | .enqueueing _ commands => CommandsSound c [] commands

section Stability

variable {c c' : Core} {f : Fields}

theorem Worker.Copies.mono {d : Delivery} {e : Endpoint} (old : Copies c f d e)
    (ext : c.Extends c') : Copies c' f d e := ⟨old.fields, old.key, ext.orderings old.ordering⟩

theorem Worker.Session.Sound.mono {q : Session} (old : q.Sound c f) (ext : c.Extends c') :
    q.Sound c' f := by
  cases q with
  | start | leaving | finished | loaded => exact old
  | queueing | waiting | gated | sending | scheduling => exact ⟨old.1.mono ext, old.2⟩
  | receiving => exact ⟨old.1.mono ext, old.2.1, old.2.2.mono ext⟩
  | committing => exact ⟨old.1.mono ext, old.2.1, old.2.2.1.mono ext, old.2.2.2⟩
  | refreshing => exact Copies.mono old ext
  | recording => exact ⟨old.1.mono ext, fun settled => (old.2 settled).mono ext⟩
  | popping => exact ⟨old.1.mono ext, old.2.1, old.2.2.1, old.2.2.2.mono ext⟩

theorem Api.Command.Sound.mono {ahead : List Command} {command : Command}
    (old : command.Sound c ahead) (ext : c.Extends c') : command.Sound c' ahead := by
  cases command with
  | zrem => trivial
  | rpush =>
    obtain ⟨r, found, same⟩ := old
    obtain ⟨r', found', _, endpoint⟩ := ext.rows found
    exact ⟨r', found', endpoint.trans same⟩
  | xadd => exact Core.KnownAfter.mono old ext

theorem Api.CommandsSound.mono {ahead commands : List Command}
    (old : CommandsSound c ahead commands)
    (ext : c.Extends c') : CommandsSound c' ahead commands := by
  induction commands generalizing ahead with
  | nil => trivial
  | cons command rest ih => exact ⟨old.1.mono ext, ih old.2⟩

theorem Api.Job.Sound.mono {j : Job} (old : j.Sound c) (ext : c.Extends c') : j.Sound c' := by
  cases j with
  | idle | ended => trivial
  | inserting => exact fun e listed => ext.orderings (old e listed)
  | selected => exact fun d listed => (old d listed).imp_left (·.mono ext)
  | enqueueing => exact CommandsSound.mono old ext

end Stability

/-! The sessions of workers -/

section Sessions

variable {env : Env} {clock : ℚ} {shard messageId : Nat} {s : Store} {c : Core} {f : Fields}
  {q q' : Session}

theorem Worker.retryMember_shard (env : Env) (d : Delivery) (e : Endpoint) :
    (retryMember env d e).shard =
      shardFor env.settings.streamShards (retryMember env d e).endpointId := by
  simp only [retryMember, encodeMember]

theorem Worker.Copies.member (env : Env) {d : Delivery} {e : Endpoint} (copies : Copies c f d e) :
    (retryMember env d e).fields = f := by
  have key := copies.key
  rw [← copies.fields]
  simp only [retryMember, encodeMember, Member.fields, Delivery.fields, key]

theorem Worker.Resolved.status {d outcome : Delivery} {delay : Option ℚ}
    (resolved : Resolved clock d outcome delay) :
    outcome.fields = d.fields ∧
      ((delay = none ∧ outcome.status.Settled) ∨
        (delay ≠ none ∧ outcome.status = .failed)) := by
  cases resolved with
  | delivered => exact ⟨rfl, Or.inl ⟨rfl, settled_delivered⟩⟩
  | dead => exact ⟨rfl, Or.inl ⟨rfl, settled_dead⟩⟩
  | failed delay => exact ⟨rfl, Or.inr ⟨by simp, rfl⟩⟩

/-- A move leaves sound copies, provided that the core was sound. -/
theorem Worker.Move.sound (move : Move env clock shard messageId f.deliveryId s q c q')
    (core : s.core.Sound env.settings.streamShards) (known : s.core.Known f)
    (old : q.Sound s.core f) : q'.Sound c f := by
  have kept := old.mono move.extends
  cases move with
  | stay => exact old
  | settled | inactive | deferWaiting | deferGated | keep | pop => trivial
  | ack | giveUp => trivial
  | load row fresh => exact ⟨known.fields_eq row, fresh⟩
  | @queue d e row ordered =>
    have endpoint : s.core.orderings e.id = some e.ordering := by
      rw [Store.core_orderings, Db.endpoint_id row, row]
      rfl
    exact ⟨⟨old.1, Db.endpoint_id row, endpoint⟩, old.2⟩
  | @gate d e row unordered =>
    have endpoint : s.core.orderings e.id = some e.ordering := by
      rw [Store.core_orderings, Db.endpoint_id row, row]
      rfl
    exact ⟨⟨old.1, Db.endpoint_id row, endpoint⟩, old.2⟩
  | pass | wait => exact old
  | vanished => exact old.1
  | commitDelivering => exact ⟨⟨kept.1.fields, kept.1.key, kept.1.ordering⟩, rfl⟩
  | send => exact ⟨kept.1, kept.2, clock, List.mem_cons_self⟩
  | receive resolved =>
    have status := resolved.status
    exact ⟨old.1, old.2.1, old.2.2, status.1.trans old.1.fields, status.2⟩
  | commitFailed =>
    obtain ⟨copies, _, _, fields, failed⟩ := kept
    have key := congrArg Fields.endpointId (copies.fields.trans fields.symm)
    refine ⟨⟨fields, copies.key.trans key, copies.ordering⟩, ?_⟩
    rcases failed with ⟨impossible, _⟩ | ⟨_, status⟩
    · cases impossible
    · exact status
  | commitSettled =>
    obtain ⟨copies, _, _, fields, _⟩ := kept
    have key := congrArg Fields.endpointId (copies.fields.trans fields.symm)
    exact ⟨fields, copies.key.trans key, copies.ordering⟩
  | schedule => exact kept.1
  | @refresh d row e found =>
    have copies : Copies s.core f d e := old
    have same : d.id = f.deliveryId := congrArg Fields.deliveryId copies.fields
    rw [same] at found
    have fields := known.fields_eq found
    have key := congrArg Fields.endpointId (copies.fields.trans fields.symm)
    refine ⟨⟨fields, copies.key.trans key, copies.ordering⟩, fun settled => ?_⟩
    exact core.settled row (Table.get_mem found) settled
  | toPop ordered settled => exact ⟨old.1, ordered, settled, old.2 settled⟩

end Sessions

/-! The core -/

namespace Core.Sound

variable {streamShards : Nat} {c c' : Core}

/-- Entries of the history that record how a delivery is enqueued. -/
def Enqueued (c : Core) (l : LogEntry) : Prop :=
  l ∈ c.log ∨ (∃ endpointId d, l = .rpush endpointId d) ∨ ∃ source f, l = .xadd source f

theorem listed_extends (ext : c.Extends c') {endpointId d : Uuid}
    (row : ∃ r, c.delivery d = some r ∧ r.endpointId = endpointId) :
    ∃ r, c'.delivery d = some r ∧ r.endpointId = endpointId := by
  obtain ⟨r, found, same⟩ := row
  obtain ⟨r', found', _, endpoint⟩ := ext.rows found
  exact ⟨r', found', endpoint.trans same⟩

theorem attempted_extends (ext : c.Extends c') {id : Uuid}
    (sent : ∃ f, f.deliveryId = id ∧ c.Known f) : ∃ f, f.deliveryId = id ∧ c'.Known f := by
  obtain ⟨f, same, known⟩ := sent
  exact ⟨f, same, known.mono ext⟩

/-- The queues and the ordered lists are as they were; what is left to check is the rows and
the log. -/
theorem of_rows (old : c.Sound streamShards) (ext : c.Extends c')
    (queues : c'.queues = c.queues) (ordered : c'.ordered = c.ordered)
    (rows : ∀ r ∈ c'.deliveries,
      (∃ e, c'.event r.eventId = some e) ∧ ∃ o, c'.orderings r.endpointId = some o)
    (settled : ∀ r ∈ c'.deliveries, r.status.Settled → c'.EverSettled r.id)
    (everSettled : ∀ id, c'.EverSettled id → c'.Attempted id)
    (attempted : ∀ id, c'.Attempted id → ∃ f, f.deliveryId = id ∧ c'.Known f) :
    c'.Sound streamShards where
  rows := rows
  entries := fun n f h => (old.entries n f (queues ▸ h)).imp_left (·.mono ext)
  members := fun m h => (old.members m (queues ▸ h)).imp_left (·.mono ext)
  listed := fun endpointId d h => listed_extends ext (old.listed endpointId d (ordered ▸ h))
  settled := settled
  everSettled := everSettled
  attempted := attempted

/-- No row changed, and nothing was attempted. -/
theorem of_queues (old : c.Sound streamShards) (ext : c.Extends c')
    (deliveries : c'.deliveries = c.deliveries) (log : ∀ l ∈ c'.log, Enqueued c l)
    (entries : ∀ n, ∀ f ∈ (c'.queues.streams n).entries,
      c.Known f ∧ n = shardFor streamShards f.endpointId)
    (members : ∀ m, c'.queues.retries.Mem m →
      c.Known m.fields ∧ m.shard = shardFor streamShards m.endpointId)
    (listed : ∀ endpointId, ∀ d ∈ c'.ordered endpointId,
      ∃ r, c.delivery d = some r ∧ r.endpointId = endpointId) : c'.Sound streamShards where
  rows := by
    intro r listed
    obtain ⟨⟨e, event⟩, o, ordering⟩ := old.rows r (deliveries ▸ listed)
    exact ⟨⟨e, ext.events event⟩, o, ext.orderings ordering⟩
  entries := fun n f h => (entries n f h).imp_left (·.mono ext)
  members := fun m h => (members m h).imp_left (·.mono ext)
  listed := fun endpointId d h => listed_extends ext (listed endpointId d h)
  settled := fun r h s => (old.settled r (deliveries ▸ h) s).mono ext
  everSettled := by
    rintro id ⟨stage, row, logged, same, settled⟩
    rcases log _ logged with before | ⟨_, _, other⟩ | ⟨_, _, other⟩
    · exact (old.everSettled id ⟨stage, row, before, same, settled⟩).mono ext
    · cases other
    · cases other
  attempted := by
    rintro id ⟨time, logged⟩
    rcases log _ logged with before | ⟨_, _, other⟩ | ⟨_, _, other⟩
    · exact attempted_extends ext (old.attempted id ⟨time, before⟩)
    · cases other
    · cases other

theorem scheduleRetry (old : c.Sound streamShards) {m : Member} (dueAt : ℚ)
    (known : c.Known m.fields) (shard : m.shard = shardFor streamShards m.endpointId) :
    (c.scheduleRetry m dueAt).Sound streamShards := by
  refine old.of_queues (c.extends_scheduleRetry m dueAt) rfl
    (fun _ => Or.inl) old.entries ?_ old.listed
  intro m' listed
  rcases ZSet.mem_zadd.mp listed with before | rfl
  · exact old.members m' before
  · exact ⟨known, shard⟩

theorem removeFromRetryQueue (old : c.Sound streamShards) (m : Member) :
    (c.removeFromRetryQueue m).Sound streamShards :=
  old.of_queues (c.extends_removeFromRetryQueue m) rfl (fun _ => Or.inl) old.entries
    (fun m' listed => old.members m' (ZSet.mem_zrem.mp listed).1) old.listed

theorem onStream (old : c.Sound streamShards) (shard : Nat)
    {g : StreamLog Fields → StreamLog Fields} (same : ∀ s, (g s).entries = s.entries) :
    (c.onStream shard g).Sound streamShards := by
  refine old.of_queues (c.extends_onStream shard same) rfl
    (fun _ => Or.inl) ?_ old.members old.listed
  intro n f listed
  rw [World.streams_onStream] at listed
  split at listed
  · exact old.entries n f (same _ ▸ listed)
  · exact old.entries n f listed

theorem popHead (old : c.Sound streamShards) (endpointId deliveryId : Uuid) :
    (c.popHead endpointId deliveryId).Sound streamShards := by
  refine old.of_queues (c.extends_popHead endpointId deliveryId) rfl (fun _ => Or.inl) old.entries
    old.members ?_
  intro endpointId' d listed
  by_cases same : endpointId' = endpointId
  · subst same
    simp only [Core.popHead, Function.update_self] at listed
    exact old.listed endpointId' d (List.mem_of_mem_erase listed)
  · simp only [Core.popHead, Function.update_of_ne same] at listed
    exact old.listed endpointId' d listed

theorem mem_xadd {q : Queues} {shard n : Nat} {f g : Fields}
    (listed : g ∈ ((q.xadd shard f).streams n).entries) :
    g ∈ (q.streams n).entries ∨ (n = shard ∧ g = f) := by
  by_cases same : n = shard
  · subst same
    simp only [Queues.xadd, Function.update_self, StreamLog.xadd_entries, List.mem_append,
      List.mem_singleton] at listed
    exact listed.imp_right (fun h => ⟨rfl, h⟩)
  · simp only [Queues.xadd, Function.update_of_ne same] at listed
    exact Or.inl listed

theorem moveDueToStreams (old : c.Sound streamShards) (now : ℚ) (limit : Nat) :
    (c.moveDueToStreams now limit).Sound streamShards := by
  have moved : (∀ n, ∀ f ∈ ((c.queues.moveDueToStreams now limit).streams n).entries,
        c.Known f ∧ n = shardFor streamShards f.endpointId) ∧
      ∀ m, (c.queues.moveDueToStreams now limit).retries.Mem m →
        c.Known m.fields ∧ m.shard = shardFor streamShards m.endpointId := by
    apply Queues.moveDueToStreams_induction
      (P := fun q => (∀ n, ∀ f ∈ (q.streams n).entries,
          c.Known f ∧ n = shardFor streamShards f.endpointId) ∧
        ∀ m, q.retries.Mem m → c.Known m.fields ∧
          m.shard = shardFor streamShards m.endpointId)
    · exact ⟨old.entries, old.members⟩
    · intro q m kept _ present
      refine ⟨fun n f listed => ?_, fun m' listed => kept.2 m' (ZSet.mem_zrem.mp listed).1⟩
      rcases mem_xadd listed with before | ⟨rfl, rfl⟩
      · exact kept.1 n f before
      · exact kept.2 m present
  exact old.of_queues (c.extends_moveDueToStreams now limit) rfl (fun _ => Or.inl) moved.1
    moved.2 old.listed

theorem enqueueDelivery (old : c.Sound streamShards) (source : Source) {f : Fields}
    (known : c.Known f) : (c.enqueueDelivery streamShards source f).Sound streamShards := by
  refine old.of_queues (c.extends_enqueueDelivery streamShards source f) rfl ?_ ?_ old.members
    old.listed
  · intro l logged
    rcases List.mem_cons.mp logged with rfl | before
    · exact Or.inr (Or.inr ⟨source, f, rfl⟩)
    · exact Or.inl before
  · intro n g listed
    rcases mem_xadd listed with before | ⟨rfl, rfl⟩
    · exact old.entries n g before
    · exact ⟨known, rfl⟩

theorem enqueueOrdered (old : c.Sound streamShards) {endpointId deliveryId : Uuid}
    (row : ∃ r, c.delivery deliveryId = some r ∧ r.endpointId = endpointId) :
    (c.enqueueOrdered endpointId deliveryId).Sound streamShards := by
  refine old.of_queues (c.extends_enqueueOrdered endpointId deliveryId) rfl ?_ old.entries
    old.members ?_
  · intro l logged
    rcases List.mem_cons.mp logged with rfl | before
    · exact Or.inr (Or.inl ⟨endpointId, deliveryId, rfl⟩)
    · exact Or.inl before
  · intro endpointId' d listed
    by_cases same : endpointId' = endpointId
    · subst same
      simp only [Core.enqueueOrdered, Function.update_self, List.mem_append,
        List.mem_singleton] at listed
      rcases listed with before | rfl
      · exact old.listed endpointId' d before
      · exact row
    · simp only [Core.enqueueOrdered, Function.update_of_ne same] at listed
      exact old.listed endpointId' d listed

theorem exec (old : c.Sound streamShards) (source : Source) {command : Command}
    (sound : command.Sound c []) : (c.exec streamShards source command).Sound streamShards := by
  cases command with
  | zrem m => exact old.removeFromRetryQueue m
  | rpush endpointId deliveryId => exact old.enqueueOrdered sound
  | xadd f => exact old.enqueueDelivery source sound

theorem issue (old : c.Sound streamShards) (ids : List Uuid) :
    (c.issue ids).Sound streamShards :=
  old.of_queues (c.extends_issue ids) rfl (fun _ => Or.inl) old.entries old.members old.listed

theorem logAttempt (old : c.Sound streamShards) {f : Fields} (known : c.Known f) (time : ℚ) :
    (c.logAttempt f.deliveryId time).Sound streamShards := by
  have ext := c.extends_logAttempt f.deliveryId time
  refine old.of_rows ext rfl rfl old.rows ?settled ?everSettled ?attempted
  case settled =>
    exact fun r h s => (old.settled r h s).mono ext
  case everSettled =>
    rintro id ⟨stage, row, logged, same, settled⟩
    rcases List.mem_cons.mp logged with impossible | before
    · cases impossible
    · exact (old.everSettled id ⟨stage, row, before, same, settled⟩).mono ext
  case attempted =>
    rintro id ⟨at_, logged⟩
    rcases List.mem_cons.mp logged with now | before
    · cases now
      exact ⟨f, rfl, known.mono ext⟩
    · exact attempted_extends ext (old.attempted id ⟨at_, before⟩)

/-- A commit may settle a row only if the delivery was attempted. -/
theorem commitDelivery (old : c.Sound streamShards) (stage : Stage) {loaded current : Delivery}
    (distinct : (c.deliveries.map Delivery.id).Nodup)
    (earned : current.status.Settled → c.Attempted loaded.id) :
    (c.commitDelivery stage loaded current).Sound streamShards := by
  have ext := c.extends_commitDelivery stage loaded current
  -- the row that results is settled only if it was, or if `current` is
  have status : ∀ row, (loaded.flush current row).status.Settled →
      row.status.Settled ∨ current.status.Settled := by
    intro row settled
    rw [Delivery.flush_status] at settled
    split at settled
    · exact Or.inl settled
    · exact Or.inr settled
  have attempted : ∀ row ∈ c.deliveries, row.id = loaded.id →
      (loaded.flush current row).status.Settled → c.Attempted loaded.id := by
    intro row listed same settled
    rcases status row settled with before | now
    · exact same ▸ old.everSettled row.id (old.settled row listed before)
    · exact earned now
  refine old.of_rows ext rfl rfl ?rows ?settled ?everSettled ?attempted
  case rows =>
    intro r listed
    have before : ∃ a ∈ c.deliveries, r.eventId = a.eventId ∧
        r.endpointId = a.endpointId := by
      rcases Table.mem_update listed with ⟨a, ha, _, rfl⟩ | same
      · exact ⟨a, ha, rfl, rfl⟩
      · exact ⟨r, same, rfl, rfl⟩
    obtain ⟨a, ha, event, endpoint⟩ := before
    exact event ▸ endpoint ▸ old.rows a ha
  case settled =>
    intro r listed settled
    rcases Table.mem_update listed with ⟨a, ha, key, rfl⟩ | same
    · have found : c.delivery loaded.id = some a := key ▸ Table.get_of_mem distinct ha
      refine ⟨stage, _, ?_, rfl, settled⟩
      simp [Core.commitDelivery, found]
    · exact (old.settled r same settled).mono ext
  case everSettled =>
    rintro id ⟨stage', row, logged, same, settled⟩
    rcases List.mem_append.mp logged with now | before
    · simp only [Option.mem_toList, Option.map_eq_some_iff] at now
      obtain ⟨a, found, entry⟩ := now
      cases entry
      have listed := Table.get_mem found
      have key : a.id = loaded.id := Table.get_key found
      have goal := (attempted a listed key settled).mono ext
      have same : loaded.id = id := key.symm.trans same
      exact same ▸ goal
    · exact (old.everSettled id ⟨stage', row, before, same, settled⟩).mono ext
  case attempted =>
    rintro id ⟨time, logged⟩
    rcases List.mem_append.mp logged with now | before
    · simp at now
    · exact attempted_extends ext (old.attempted id ⟨time, before⟩)

theorem commitRequeued (old : c.Sound streamShards)
    (distinct : (c.deliveries.map Delivery.id).Nodup)
    (rows : List Delivery) : (c.commitRequeued rows).Sound streamShards := by
  unfold Core.commitRequeued
  induction rows generalizing c with
  | nil => exact old
  | cons row rest ih =>
    apply ih
    · exact old.commitDelivery .requeued distinct
        (fun settled => absurd settled not_settled_pending)
    · have ids : (Table.update Delivery.id c.deliveries row.id (row.flush (requeued row))).map
          Delivery.id = c.deliveries.map Delivery.id := Table.keys_update (fun _ => rfl)
      simpa only [Core.commitDelivery, ids] using distinct

/-- The commit of new pending rows, whose event comes with them. -/
theorem commitEvent (old : c.Sound streamShards) {event : Event} {deliveries : List Delivery}
    (fresh : event.id ∉ c.events.map Event.id)
    (rows : ∀ d ∈ deliveries, d.eventId = event.id ∧ d.status = .pending ∧
      ∃ o, c.orderings d.endpointId = some o) :
    (c.commitEvent event deliveries).Sound streamShards := by
  have ext := c.extends_commitEvent event deliveries
  have inserted : (c.commitEvent event deliveries).event event.id = some event := by
    have absent : Table.get Event.id c.events event.id = none := Table.get_eq_none.mpr fresh
    simp only [Core.event, Core.commitEvent, Table.get_append, absent]
    simp [Table.get]
  refine old.of_rows ext rfl rfl ?rows ?settled ?everSettled ?attempted
  case rows =>
    intro r listed
    rcases List.mem_append.mp listed with before | now
    · obtain ⟨⟨e, found⟩, ordering⟩ := old.rows r before
      exact ⟨⟨e, ext.events found⟩, ordering⟩
    · obtain ⟨same, _, ordering⟩ := rows r now
      exact ⟨⟨event, same ▸ inserted⟩, ordering⟩
  case settled =>
    intro r listed settled
    rcases List.mem_append.mp listed with before | now
    · exact (old.settled r before settled).mono ext
    · rw [(rows r now).2.1] at settled
      exact absurd settled not_settled_pending
  case everSettled =>
    exact fun id settled => (old.everSettled id settled).mono ext
  case attempted =>
    exact fun id attempted => attempted_extends ext (old.attempted id attempted)

end Core.Sound

/-- A move keeps the core sound. -/
theorem Worker.Move.core_sound {env : Env} {clock : ℚ} {shard messageId : Nat} {s : Store}
    {c : Core} {f : Fields} {q q' : Session}
    (move : Move env clock shard messageId f.deliveryId s q c q')
    (core : s.core.Sound env.settings.streamShards) (known : s.core.Known f)
    (distinct : (s.core.deliveries.map Delivery.id).Nodup) (old : q.Sound s.core f) :
    c.Sound env.settings.streamShards := by
  have schedule : ∀ {d : Delivery} {e : Endpoint} (dueAt : ℚ), Copies s.core f d e →
      (s.core.scheduleRetry (retryMember env d e) dueAt).Sound env.settings.streamShards := by
    intro d e dueAt copies
    exact core.scheduleRetry dueAt (copies.member env ▸ known) (retryMember_shard env d e)
  cases move with
  | deferWaiting dueAt => exact schedule dueAt old.1
  | deferGated dueAt => exact schedule dueAt old.1
  | schedule => exact schedule _ old.1
  | commitDelivering =>
    exact core.commitDelivery _ distinct (fun settled => absurd settled not_settled_delivering)
  | commitFailed => exact core.commitDelivery _ distinct (fun _ => old.2.2.1)
  | commitSettled => exact core.commitDelivery _ distinct (fun _ => old.2.2.1)
  | @send d e =>
    have same : d.id = f.deliveryId := congrArg Fields.deliveryId old.1.fields
    exact same ▸ core.logAttempt known clock
  | pop => exact core.popHead _ _
  | ack => exact core.onStream shard (fun log => log.xack_entries messageId)
  | _ => exact core

/-! The requests -/

namespace Api

variable {c c' : Core} {streamShards : Nat}

theorem CommandsSound.weaken {ahead ahead' commands : List Command}
    (sub : ∀ command ∈ ahead, command ∈ ahead') (old : CommandsSound c ahead commands) :
    CommandsSound c ahead' commands := by
  induction commands generalizing ahead ahead' with
  | nil => trivial
  | cons command rest ih =>
    refine ⟨?_, ih (fun a h => ?_) old.2⟩
    · cases command with
      | zrem => trivial
      | rpush => exact old.1
      | xadd f =>
        obtain ⟨row, o, known, pushed⟩ := old.1
        exact ⟨row, o, known, fun ordered => (pushed ordered).imp_right (sub _)⟩
    · rcases List.mem_cons.mp h with rfl | h
      · exact List.mem_cons_self
      · exact List.mem_cons_of_mem _ (sub a h)

theorem CommandsSound.append {ahead first second : List Command}
    (old : CommandsSound c ahead first) (new : CommandsSound c ahead second) :
    CommandsSound c ahead (first ++ second) := by
  induction first generalizing ahead with
  | nil => exact new
  | cons command rest ih =>
    exact ⟨old.1, ih old.2 (new.weaken (fun _ h => List.mem_cons_of_mem _ h))⟩

theorem CommandsSound.flatMap {A : Type} {g : A → List Command} {items : List A}
    (each : ∀ a ∈ items, CommandsSound c [] (g a)) : CommandsSound c [] (items.flatMap g) := by
  induction items with
  | nil => trivial
  | cons a rest ih =>
    rw [List.flatMap_cons]
    exact (each a List.mem_cons_self).append (ih (fun b h => each b (List.mem_cons_of_mem _ h)))

/-- Issuing a command turns it from a promise into history. -/
theorem CommandsSound.issue {source : Source} {command : Command} {ahead rest : List Command}
    (old : CommandsSound c (command :: ahead) rest) :
    CommandsSound (c.exec streamShards source command) ahead rest := by
  have ext := c.extends_exec streamShards source command
  induction rest generalizing ahead with
  | nil => trivial
  | cons next tail ih =>
    refine ⟨?_, ih (old.2.weaken ?_)⟩
    · cases next with
      | zrem => trivial
      | rpush =>
        obtain ⟨r, found, same⟩ := old.1
        obtain ⟨r', found', _, endpoint⟩ := ext.rows found
        exact ⟨r', found', endpoint.trans same⟩
      | xadd f =>
        obtain ⟨row, o, known, pushed⟩ := old.1
        refine ⟨row.mono ext, o, ext.orderings known, fun ordered => ?_⟩
        rcases pushed ordered with before | promised
        · exact Or.inl (ext.logged before)
        · rcases List.mem_cons.mp promised with rfl | later
          · exact Or.inl List.mem_cons_self
          · exact Or.inr later
    · intro a h
      simp only [List.mem_cons] at h ⊢
      tauto

theorem enqueueInOrder_sound {ordered : Bool} {d : Delivery} (row : c.RowOf d.fields)
    (pushed : ∃ o, c.orderings d.endpointId = some o ∧
      (o = .ordered → ordered = true ∨ c.Pushed d.endpointId d.id)) :
    CommandsSound c [] (Command.enqueueInOrder ordered d) := by
  obtain ⟨o, known, ok⟩ := pushed
  have endpoint : ∃ r, c.delivery d.id = some r ∧ r.endpointId = d.endpointId := by
    obtain ⟨r, found, _, same⟩ := row
    exact ⟨r, found, same⟩
  cases ordered with
  | true =>
    refine ⟨endpoint, ⟨row, o, known, fun _ => Or.inr ?_⟩, trivial⟩
    exact List.mem_cons_self
  | false =>
    refine ⟨⟨row, o, known, fun h => Or.inl ?_⟩, trivial⟩
    rcases ok h with impossible | before
    · cases impossible
    · exact before

theorem Requeues.sound {rows : List Delivery} {source : Source} {commands : List Command}
    (issued : Requeues streamShards rows source commands)
    (known : ∀ d ∈ rows, c.Known d.fields) :
    CommandsSound c [] commands := by
  have pushed : ∀ d ∈ rows, ∃ o, c.orderings d.endpointId = some o ∧
      (o = .ordered → c.Pushed d.endpointId d.id) := by
    intro d listed
    obtain ⟨o, same, before⟩ := (known d listed).pushed
    exact ⟨o, same, fun ordered => (before ordered).resolve_right List.not_mem_nil⟩
  cases issued with
  | replay ordering =>
    refine CommandsSound.flatMap (fun d listed => ⟨trivial, ?_⟩)
    obtain ⟨o, same, before⟩ := pushed d listed
    exact (enqueueInOrder_sound (known d listed).row
      ⟨o, same, fun ordered => Or.inr (before ordered)⟩).weaken
        (fun _ h => absurd h List.not_mem_nil)
  | approve =>
    rw [Approve.commands, List.map_eq_flatMap]
    exact CommandsSound.flatMap (fun d listed => ⟨known d listed, trivial⟩)

/-- The endpoint that a fan-out used decides whether the delivery is pushed. -/
theorem Ingest.isOrdered_of_mem {endpoints : List Endpoint} {e : Endpoint}
    (sound : ∀ e ∈ endpoints, c.orderings e.id = some e.ordering) (listed : e ∈ endpoints) :
    ∃ o, c.orderings e.id = some o ∧ (o = .ordered → isOrdered endpoints e.id = true) := by
  refine ⟨e.ordering, sound e listed, fun ordered => ?_⟩
  have found : ∃ e', endpoints.find? (fun a => a.id = e.id) = some e' := by
    rw [← Option.isSome_iff_exists, List.find?_isSome]
    exact ⟨e, listed, by simp⟩
  obtain ⟨e', found⟩ := found
  have same : e'.id = e.id := by simpa using List.find?_some found
  have ordering := sound e' (List.mem_of_find?_eq_some found)
  rw [same, sound e listed] at ordering
  simp [isOrdered, found, ← Option.some.inj ordering, ordered]

theorem Ingest.commands_sound {event : Event} {endpoints : List Endpoint} {ids : List Uuid}
    (sound : ∀ e ∈ endpoints, c.orderings e.id = some e.ordering)
    (rows : ∀ d ∈ newDeliveries event.id ids endpoints, c.delivery d.id = some d) :
    CommandsSound c [] (commands endpoints (newDeliveries event.id ids endpoints)) := by
  refine CommandsSound.flatMap (fun d listed => ?_)
  obtain ⟨_, _, e, listed', same⟩ := mem_newDeliveries listed
  obtain ⟨o, known, pushes⟩ := isOrdered_of_mem sound listed'
  rw [← same] at known pushes
  exact enqueueInOrder_sound ⟨d, rows d listed, rfl, rfl⟩
    ⟨o, known, fun ordered => Or.inl (pushes ordered)⟩

/-- What a request does keeps its own promises and the core sound. -/
theorem JobMove.sound {s : Store} {j j' : Job} (move : JobMove streamShards s j c j')
    (core : s.core.Sound streamShards) (distinct : s.core.used.Nodup)
    (endpoints : ∀ e ∈ s.db.endpoints, s.core.orderings e.id = some e.ordering)
    (once : j.drawn.Nodup) (fresh : ∀ id ∈ j.drawn, id ∉ s.core.used) (fansOut : j.FansOut)
    (old : j.Sound s.core) : c.Sound streamShards ∧ j'.Sound c := by
  have rowsDistinct := (List.nodup_append.mp distinct).2.1
  cases move with
  | stay => exact ⟨core, old⟩
  | leave | nothing | finish | rollback => exact ⟨core, trivial⟩
  | insert _ _ listed =>
    exact ⟨core.issue _, fun e h => endpoints e (listed e h)⟩
  | @commit event endpoints deliveries =>
    obtain ⟨ids, length, rfl⟩ := fansOut
    have newEvent : event.id ∉ s.core.events.map Event.id :=
      fun taken => fresh event.id List.mem_cons_self (List.mem_append_left _ taken)
    have sound : (s.core.commitEvent event (Ingest.newDeliveries event.id ids endpoints)).Sound
        streamShards := by
      refine core.commitEvent newEvent (fun d listed => ?_)
      obtain ⟨same, status, e, listed', endpoint⟩ := Ingest.mem_newDeliveries listed
      exact ⟨same, status, e.ordering, endpoint ▸ old e listed'⟩
    refine ⟨sound, Ingest.commands_sound old (fun d listed => ?_)⟩
    -- the new row is found because its id is fresh
    have newRow : d.id ∉ s.core.deliveries.map Delivery.id := by
      refine fun taken => fresh d.id ?_ (List.mem_append_right _ taken)
      exact List.mem_cons_of_mem _ (List.mem_map_of_mem listed)
    have absent : Table.get Delivery.id s.core.deliveries d.id = none :=
      Table.get_eq_none.mpr newRow
    have found := Table.get_of_mem (List.nodup_cons.mp once).2 listed
    simp only [Core.delivery, Core.commitEvent, Table.get_append, absent, Option.none_or]
    exact found
  | @select rows dead =>
    refine ⟨core, fun d listed => ?_⟩
    obtain ⟨inTable, status⟩ := dead d listed
    have settled := core.settled d inTable (status ▸ settled_dead)
    obtain ⟨f, same, known⟩ := core.attempted d.id (core.everSettled d.id settled)
    have found : s.core.delivery f.deliveryId = some d :=
      same ▸ Table.get_of_mem rowsDistinct inTable
    exact ⟨known.fields_eq found ▸ known, status⟩
  | @requeue rows source commands issued =>
    have ext := s.core.extends_commitRequeued rows
    refine ⟨core.commitRequeued rowsDistinct rows, issued.sound (fun d listed => ?_)⟩
    exact (old d listed).1.mono ext
  | exec => exact ⟨core.exec _ old.1, CommandsSound.issue old.2⟩

end Api

/-! All runs -/

namespace World

structure Consistent (env : Env) (x : World) : Prop where
  allocated : Allocated env x
  fansOut : FansOut env x
  core : x.core.Sound env.settings.streamShards
  held : ∀ w, ∀ e ∈ x.held w, (x.streamOf w).entries[e.1]? = some e.2
  sessions : ∀ w h, x.Handles w h → h.pc.session.Sound x.core h.fields
  jobs : ∀ r q, x.requests r = some q → (q.job env.settings.streamShards).Sound x.core

variable {env : Env} {l : Label} {x y : World}

theorem Handles.mem_held {w : Nat} {h : Handling} (handles : x.Handles w h) :
    (h.messageId, h.fields) ∈ x.held w := by
  unfold Handles at handles
  simp [World.held, Consumer.held, handles]

/-- The delivery of a handled entry has a row. -/
theorem Consistent.known (inv : Consistent env x) {w : Nat} {h : Handling}
    (handles : x.Handles w h) : x.core.Known h.fields := by
  have entry := inv.held w _ handles.mem_held
  exact (inv.core.entries (x.shard w) _ (List.mem_of_getElem? entry)).1

theorem consistent_initial (env : Env) (shardOf : Nat → Nat) :
    Consistent env (initial shardOf) where
  allocated := allocated_initial env shardOf
  fansOut := fun _ _ h => by cases h
  core :=
    { rows := fun _ h => absurd h List.not_mem_nil
      entries := fun _ _ h => absurd h List.not_mem_nil
      members := fun m h => absurd h (ZSet.not_mem_empty m)
      listed := fun _ _ h => absurd h List.not_mem_nil
      settled := fun _ h => absurd h List.not_mem_nil
      everSettled := by
        rintro _ ⟨_, _, logged, _⟩
        exact absurd logged List.not_mem_nil
      attempted := by
        rintro _ ⟨_, logged⟩
        exact absurd logged List.not_mem_nil }
  held := fun _ _ h => absurd h List.not_mem_nil
  sessions := fun _ _ h => by cases h
  jobs := fun _ _ h => by cases h

theorem Change.entry (change : Change env x y l) {n id : Nat} {f : Fields}
    (entry : (x.core.queues.streams n).entries[id]? = some f) :
    (y.core.queues.streams n).entries[id]? = some f := by
  obtain ⟨more, same⟩ := change.extends.entries n
  rw [← same, List.getElem?_append_left (List.getElem?_eq_some_iff.mp entry).1]
  exact entry

theorem Consistent.core_step (inv : Consistent env x) (change : Change env x y l) :
    y.core.Sound env.settings.streamShards := by
  have ext := change.extends
  cases change with
  | admin _ _ _ _ core _ _ =>
    rw [core] at ext ⊢
    exact inv.core.of_queues ext rfl (fun _ => Or.inl) inv.core.entries inv.core.members
      inv.core.listed
  | arrive _ core | take _ _ _ core | raise _ _ core | drop _ _ core | fail _ _ core =>
    exact core ▸ inv.core
  | read _ _ _ core _ _ =>
    exact core ▸ inv.core.onStream _ (fun log => log.xreadgroup_entries _ _)
  | claim _ _ _ _ _ core _ _ =>
    exact core ▸ inv.core.onStream _ (fun log => log.xclaim_entries _ _ _)
  | work _ handles _ move _ _ =>
    exact move.core_sound inv.core (inv.known handles) inv.allocated.deliveries
      (inv.sessions _ _ handles)
  | schedule _ core _ _ => exact core ▸ inv.core.moveDueToStreams _ _
  | serve _ running move _ _ =>
    have drawn := drawn_running env running
    exact (move.sound inv.core inv.allocated.used (fun _ => inv.allocated.ordering)
      (drawn ▸ inv.allocated.once _) (fun id h => (inv.allocated.drawn _ id (drawn ▸ h)).2)
      (inv.fansOut _ _ running) (inv.jobs _ _ running)).1

theorem Consistent.step (inv : Consistent env x) (change : Change env x y l) :
    Consistent env y where
  allocated := inv.allocated.step change
  fansOut := inv.fansOut.step change
  core := inv.core_step change
  held := by
    intro w e listed
    rw [change.streamOf w]
    cases change.hands w with
    | fewer sub _ => exact change.entry (inv.held w e (sub.subset listed))
    | read _ _ next now _ =>
      rw [now, List.mem_singleton] at listed
      subst listed
      exact change.entry next
    | claim _ _ _ _ now _ =>
      rw [now, List.mem_filterMap] at listed
      obtain ⟨id, _, found⟩ := listed
      obtain ⟨f, entry, rfl⟩ := Option.map_eq_some_iff.mp found
      exact change.entry entry
  sessions := by
    intro w h handles
    cases change.arises handles with
    | same old _ => exact (inv.sessions w h old).mono change.extends
    | begun _ _ begun =>
      subst begun
      trivial
    | moved _ handled _ move kept =>
      rw [kept.2.1]
      exact move.sound inv.core (inv.known handled) (inv.sessions w _ handled)
    | raised _ _ session _ =>
      rw [session]
      trivial
  jobs := by
    intro r q running
    cases change.serves running with
    | same old _ => exact (inv.jobs r q old).mono change.extends
    | arrived _ _ idle => exact idle ▸ trivial
    | failed _ _ ended => exact ended ▸ trivial
    | moved _ old move =>
      have drawn := drawn_running env old
      exact (move.sound inv.core inv.allocated.used (fun _ => inv.allocated.ordering)
        (drawn ▸ inv.allocated.once _) (fun id h => (inv.allocated.drawn _ id (drawn ▸ h)).2)
        (inv.fansOut _ _ old) (inv.jobs _ _ old)).2

/-- Every run, whatever its guard, is consistent. -/
theorem consistent_run {guard : World → Label → Prop} {shardOf : Nat → Nat}
    (run : Transition.Run (World.step env) guard (initial shardOf) x) : Consistent env x :=
  run.invariant (consistent_initial env shardOf) (fun inv _ next => inv.step (step_change next))

end World

end Relay
