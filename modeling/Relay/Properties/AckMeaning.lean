import Relay.Delivery.Attempt
import Relay.Lib.Transition
import Relay.Pipeline.History

/-!
# What an acknowledgement means

`deliver_with_gates` with no other process in between. Every exit behind the
check of the endpoint's status settles the row or schedules its member; the
exit of that check does neither.
-/

namespace Relay

open Enqueue RetryQueue Worker Transition

/-- The row or its endpoint is gone, the row is settled, or a retry is scheduled. -/
def Core.Accounted (env : Env) (c : Core) (id : Uuid) : Prop :=
  ∀ d, c.delivery id = some d → c.orderings d.endpointId = none ∨ d.status.Settled ∨
    c.queues.retries.Mem (encodeMember env.settings.streamShards d.id d.eventId d.endpointId)

namespace Worker

/-- The same of a store. -/
def Accounted (env : Env) (s : Store) (id : Uuid) : Prop :=
  ∀ d, s.db.delivery id = some d → s.db.endpoint d.endpointId = none ∨ d.status.Settled ∨
    s.queues.retries.Mem (encodeMember env.settings.streamShards d.id d.eventId d.endpointId)

/-- If the delivery and its endpoint have rows, the endpoint is active. -/
def OfActive (s : Store) (id : Uuid) : Prop :=
  ∀ d e, s.db.delivery id = some d → s.db.endpoint d.endpointId = some e → e.status = .active

/-- How an awaited call ends. -/
inductive Await where
  | returns (clock : ℚ) (c : Choice)
  | raises

/-- One await in the handling of delivery `id`. -/
def Await.step (env : Env) (id : Uuid) : Await → Store × Pc → Option (Store × Pc)
  | .returns clock c, (s, pc) => pc.step env clock c 0 0 id s
  | .raises, (s, pc) => some (s, pc.onRaise)

/-- `deliver_with_gates`, called at `now`, returns True and leaves `after`. -/
def Acks (env : Env) (id : Uuid) (now : ℚ) (before after : Store) : Prop :=
  Run (Await.step env id) (fun _ _ => True) (before, .loadDelivery now) (after, .close true)

theorem accounted_core {env : Env} {s : Store} {id : Uuid} :
    s.core.Accounted env id ↔ Accounted env s id := by
  unfold Core.Accounted Accounted
  simp only [Store.core_delivery, Store.core_queues, Store.core_orderings,
    Option.map_eq_none_iff]

/-- Session copies of a row that is there, with its endpoint and its event. -/
structure Present (c : Core) (id : Uuid) (d : Delivery) (e : Endpoint) : Prop where
  own : d.id = id
  key : e.id = d.endpointId
  row : c.RowOf d.fields
  event : ∃ ev, c.event d.eventId = some ev
  endpoint : ∃ o, c.orderings d.endpointId = some o

/-- What a handling on its own has left behind by now. -/
def Session.Leaves (env : Env) (c : Core) (id : Uuid) : Session → Prop
  | .start | .loaded _ => False
  | .queueing d e | .waiting d e | .gated d e => Present c id d e ∧ ¬ d.status.Settled
  | .sending d e | .receiving d e => Present c id d e ∧ d.status = .delivering
  | .committing d e outcome delay => Present c id d e ∧ d.status = .delivering ∧
      outcome.fields = d.fields ∧ (delay = none → outcome.status.Settled)
  | .scheduling d e _ => Present c id d e
  | .refreshing _ _ | .recording _ _ | .popping _ _ | .leaving true => c.Accounted env id
  | .leaving false | .finished => True

section

variable {env : Env} {id : Uuid} {c c' : Core} {d : Delivery} {e : Endpoint}

theorem Present.mono (old : Present c id d e) (ext : c.Extends c') : Present c' id d e where
  own := old.own
  key := old.key
  row := old.row.mono ext
  event := old.event.imp (fun _ found => ext.events found)
  endpoint := old.endpoint.imp (fun _ found => ext.orderings found)

theorem Present.copy (old : Present c id d e) {d' : Delivery} (fields : d'.fields = d.fields) :
    Present c id d' e where
  own := (congrArg Fields.deliveryId fields).trans old.own
  key := old.key.trans (congrArg Fields.endpointId fields).symm
  row := fields ▸ old.row
  event := by
    have same : d'.eventId = d.eventId := congrArg Fields.eventId fields
    rw [same]
    exact old.event
  endpoint := by
    have same : d'.endpointId = d.endpointId := congrArg Fields.endpointId fields
    rw [same]
    exact old.endpoint

/-- The copy names the row. -/
theorem Present.fields_eq (old : Present c id d e) {row : Delivery}
    (found : c.delivery id = some row) : row.fields = d.fields := by
  obtain ⟨r, same, event, endpoint⟩ := old.row
  have mine : c.delivery id = some r := old.own ▸ same
  rw [found] at mine
  cases mine
  have key : row.id = id := Table.get_key found
  have eventId : row.eventId = d.eventId := event
  have endpointId : row.endpointId = d.endpointId := endpoint
  simp only [Delivery.fields, key, old.own, eventId, endpointId]

/-- Every deferral and every retry is under the member of the row. -/
theorem Present.scheduled (old : Present c id d e) (dueAt : ℚ) :
    (c.scheduleRetry (retryMember env d e) dueAt).Accounted env id := by
  intro row found
  have fields : row.fields = d.fields := old.fields_eq found
  have own : row.id = d.id := congrArg Fields.deliveryId fields
  have event : row.eventId = d.eventId := congrArg Fields.eventId fields
  have endpoint : row.endpointId = e.id :=
    (congrArg Fields.endpointId fields).trans old.key.symm
  refine Or.inr (Or.inr (ZSet.mem_zadd.mpr (Or.inr ?_)))
  rw [own, event, endpoint]
  rfl

/-- A commit of a settled outcome settles the row. -/
theorem Present.settled (old : Present c id d e) (delivering : d.status = .delivering)
    {outcome : Delivery} (settled : outcome.status.Settled) :
    (c.commitDelivery .outcome d outcome).Accounted env id := by
  intro row found
  rw [Core.delivery_commitDelivery, if_pos old.own.symm] at found
  obtain ⟨before, _, rfl⟩ := Option.map_eq_some_iff.mp found
  have changed : outcome.status ≠ d.status := by
    intro same
    rw [same, delivering] at settled
    exact not_settled_delivering settled
  right
  left
  rw [Delivery.flush_status, if_neg changed]
  exact settled

/-- Past the check of the status, every await keeps the handling on its way to
an outcome. -/
theorem Move.leaves {clock : ℚ} {shard messageId : Nat} {s : Store} {q q' : Session}
    (move : Move env clock shard messageId id s q c q') (left : q.Leaves env s.core id) :
    q'.Leaves env c id := by
  have ext := move.extends
  cases move with
  | stay => exact left
  | settled | load | inactive | queue | gate => exact left.elim
  | pass | wait => exact left
  | deferWaiting dueAt => exact left.1.scheduled dueAt
  | deferGated dueAt => exact left.1.scheduled dueAt
  | @vanished d e missing =>
    obtain ⟨present, fresh⟩ := left
    obtain ⟨r, found, _⟩ := present.row
    obtain ⟨ev, event⟩ := present.event
    obtain ⟨o, ordering⟩ := present.endpoint
    have row : s.db.delivery id = some r := present.own ▸ found
    rcases missing with absent | delivered | absent | absent
    · rw [row] at absent
      cases absent
    · exact absurd (delivered ▸ settled_delivered) fresh
    · rw [Store.core_orderings, absent] at ordering
      cases ordering
    · rw [Store.core_event, absent] at event
      cases event
  | commitDelivering =>
    have present := left.1.mono ext
    exact ⟨present.copy rfl, rfl⟩
  | send => exact ⟨left.1.mono ext, left.2⟩
  | receive resolved =>
    obtain ⟨fields, status⟩ := resolved.status
    refine ⟨left.1, left.2, fields, fun none => ?_⟩
    rcases status with ⟨_, settled⟩ | ⟨some, _⟩
    · exact settled
    · exact absurd none some
  | commitFailed => exact (left.1.mono ext).copy left.2.2.1
  | commitSettled =>
    obtain ⟨present, delivering, _, settled⟩ := left
    exact present.settled delivering (settled rfl)
  | schedule => exact Present.scheduled left _
  | refresh | keep | toPop | pop => exact left
  | ack | giveUp => trivial

variable {s : Store}

/-- Where the handling that began in the store `s` is. -/
inductive Progress (env : Env) (id : Uuid) (s : Store) : Store × Pc → Prop
  | start {now : ℚ} : Progress env id s (s, .loadDelivery now)
  | loaded {now : ℚ} {d : Delivery} (row : s.db.delivery id = some d)
      (fresh : ¬ d.status.Settled) : Progress env id s (s, .loadEndpoint now d)
  | underway {t : Store} {pc : Pc} (left : pc.session.Leaves env t.core id) :
      Progress env id s (t, pc)

theorem Progress.start_step {now : ℚ} {y : Store × Pc} (clock : ℚ) (c : Choice)
    (next : (Pc.loadDelivery now).step env clock c 0 0 id s = some y) :
    Progress env id s y := by
  simp only [Pc.step] at next
  split at next
  · rename_i absent
    cases next
    refine .underway (accounted_core.mpr (fun d found => ?_))
    rw [absent] at found
    cases found
  · rename_i d row
    split at next
    · rename_i settled
      cases next
      refine .underway (accounted_core.mpr (fun d' found => ?_))
      rw [row] at found
      cases found
      exact Or.inr (Or.inl settled)
    · rename_i fresh
      cases next
      exact .loaded row fresh

/-- The check of the endpoint's status. -/
theorem Progress.loaded_step {now : ℚ} {y : Store × Pc} (clock : ℚ) (c : Choice)
    (event : ∀ d, s.db.delivery id = some d → (s.db.event d.eventId).isSome = true)
    (kept : OfActive s id ∨ Accounted env s id) (row : s.db.delivery id = some d)
    (fresh : ¬ d.status.Settled)
    (next : (Pc.loadEndpoint now d).step env clock c 0 0 id s = some y) :
    Progress env id s y := by
  have own : d.id = id := Db.delivery_id row
  simp only [Pc.step] at next
  split at next
  · rename_i absent
    cases next
    refine .underway (accounted_core.mpr (fun d' found => ?_))
    rw [row] at found
    cases found
    exact Or.inl absent
  · rename_i e endpoint
    have present : Present s.core id d e :=
      { own := own
        key := Db.endpoint_id endpoint
        row := ⟨d, (congrArg s.core.delivery own).trans row, rfl, rfl⟩
        event := Option.isSome_iff_exists.mp (event d row)
        endpoint := ⟨e.ordering, by rw [Store.core_orderings, endpoint]; rfl⟩ }
    split at next
    · rename_i inactive
      cases next
      rcases kept with active | accounted
      · exact absurd (active d e row endpoint) inactive
      · exact .underway (accounted_core.mpr accounted)
    · split at next
      · cases next
        exact .underway ⟨present, fresh⟩
      · cases next
        exact .underway ⟨present, fresh⟩

theorem Progress.step {x y : Store × Pc} {l : Await}
    (event : ∀ d, s.db.delivery id = some d → (s.db.event d.eventId).isSome = true)
    (kept : OfActive s id ∨ Accounted env s id) (progress : Progress env id s x)
    (next : l.step env id x = some y) : Progress env id s y := by
  cases l with
  | returns clock choice =>
    cases progress with
    | start => exact Progress.start_step clock choice next
    | loaded row fresh => exact Progress.loaded_step clock choice event kept row fresh next
    | underway left =>
      obtain ⟨t, pc⟩ := y
      exact .underway ((Pc.step_move next).leaves left)
  | raises =>
    obtain ⟨t, pc⟩ := x
    cases next
    refine .underway ?_
    rcases pc.onRaise_session with leaving | finished
    · rw [leaving]
      trivial
    · rw [finished]
      trivial

/-- Two awaits lead from an inactive endpoint to an acknowledgement. -/
theorem acks_inactive {now : ℚ} (row : s.db.delivery id = some d) (fresh : ¬ d.status.Settled)
    (endpoint : s.db.endpoint d.endpointId = some e) (inactive : e.status ≠ .active) :
    Acks env id now s s := by
  have load : (Await.returns 0 {}).step env id (s, .loadDelivery now) =
      some (s, .loadEndpoint now d) := by
    simp only [Await.step, Pc.step, row, if_neg fresh]
  have skip : (Await.returns 0 {}).step env id (s, .loadEndpoint now d) =
      some (s, .close true) := by
    simp only [Await.step, Pc.step, endpoint, if_pos inactive]
  exact .tail (.tail .refl trivial load) trivial skip

end

/-- Every way to an acknowledgement settles or reschedules exactly when the
endpoint is active or nothing was left to do. An event outlives its deliveries. -/
theorem ack_accounted {env : Env} {id : Uuid} {now : ℚ} {s : Store}
    (event : ∀ d, s.db.delivery id = some d → (s.db.event d.eventId).isSome = true) :
    (∀ after, Acks env id now s after → Accounted env after id) ↔
      OfActive s id ∨ Accounted env s id := by
  constructor
  · intro always
    by_cases active : OfActive s id
    · exact Or.inl active
    right
    unfold OfActive at active
    push Not at active
    obtain ⟨d, e, row, endpoint, inactive⟩ := active
    by_cases settled : d.status.Settled
    · intro d' found
      rw [row] at found
      cases found
      exact Or.inr (Or.inl settled)
    · exact always s (acks_inactive row settled endpoint inactive)
  · intro kept after acks
    have progress : Progress env id s (after, .close true) :=
      acks.invariant (I := Progress env id s) .start
        (fun held _ next => held.step event kept next)
    cases progress with
    | underway left => exact accounted_core.mp left

/-! A run for each side -/

/-- Every await returns; the receiver answers 500. -/
def attempted500 : List Await :=
  List.replicate 18 (.returns 0 ⟨7, ⟨0, some 500, some "http_5xx", none, none⟩, 1⟩)

/-- The failed attempt at an active endpoint is acknowledged and scheduled. -/
theorem ack_accounted_retried : ∃ after,
    Acks readsNan 1 0 (withTenant (storeOf sampleDelivery sampleEndpoint)) after ∧
      Accounted readsNan after 1 := by
  obtain ⟨x, done, closes⟩ := reached
    (o := exec (Await.step readsNan 1) (fun _ _ => true) attempted500
      (withTenant (storeOf sampleDelivery sampleEndpoint), .loadDelivery 0))
    (by decide +kernel : Option.elim _ false closesAcked = true)
  rw [closesAcked_sound closes] at done
  have acks : Acks readsNan 1 0 (withTenant (storeOf sampleDelivery sampleEndpoint)) x.1 :=
    run_of_exec (fun _ _ _ => trivial) done
  refine ⟨x.1, acks, (ack_accounted ?_).mpr (Or.inl ?_) x.1 acks⟩
  · intro d found
    cases found
    rfl
  · intro d e found endpoint
    cases found
    cases endpoint
    rfl

theorem not_accounted {env : Env} {s : Store} {id : Uuid} {d : Delivery} {e : Endpoint}
    (row : s.db.delivery id = some d) (endpoint : s.db.endpoint d.endpointId = some e)
    (fresh : ¬ d.status.Settled) (idle : s.queues.retries = ZSet.empty) :
    ¬ Accounted env s id := by
  intro accounted
  rcases accounted d row with absent | settled | scheduled
  · rw [endpoint] at absent
    cases absent
  · exact fresh settled
  · rw [idle] at scheduled
    exact ZSet.not_mem_empty _ scheduled

def pausedEndpoint : Endpoint := { sampleEndpoint with status := .paused }

/-- The entry of a paused endpoint is acknowledged. Once the endpoint is active
again, the delivery is still pending and no retry is scheduled. -/
theorem ack_strands :
    Acks readsNan 1 0 (storeOf sampleDelivery pausedEndpoint)
        (storeOf sampleDelivery pausedEndpoint) ∧
      ¬ Accounted readsNan (storeOf sampleDelivery pausedEndpoint) 1 ∧
      ¬ Accounted readsNan
        ((storeOf sampleDelivery pausedEndpoint).setEndpointStatus 1 .active) 1 := by
  refine ⟨acks_inactive (d := sampleDelivery) (e := pausedEndpoint) rfl (by decide) rfl
    (by decide), ?_, ?_⟩
  · exact not_accounted (d := sampleDelivery) (e := pausedEndpoint) rfl rfl (by decide) rfl
  · exact not_accounted (d := sampleDelivery) (e := sampleEndpoint) rfl rfl (by decide) rfl

end Worker

end Relay
