import Relay.Pipeline.Lists
import Relay.Pipeline.Rows
import Relay.Pipeline.SoleCarrier
import Relay.Properties.LiveWork
import Relay.Properties.NoLostDelivery

/-!
# Is backoff respected?

A failed attempt commits the time of the next one before it schedules it, and
acknowledges its entry last. A worker that dies in between leaves an entry that
comes back after the idle threshold, whatever the row says. Where the entry is
then the only carrier, and not to be claimed before the retry is due, no attempt
starts early.
-/

namespace Relay

open Enqueue RetryQueue Worker Api Transition

/-- The copy of the row that a session holds until it is done with the entry. -/
def Worker.Session.copy : Session → Option Delivery
  | .loaded d | .queueing d _ | .waiting d _ | .gated d _ | .sending d _ | .receiving d _
  | .committing d _ _ _ | .scheduling d _ _ => some d
  | _ => none

theorem Worker.Session.copy_sound {q : Session} {c : Core} {f : Fields} {d : Delivery}
    (copy : q.copy = some d) (sound : q.Sound c f) : d.fields = f ∧ ¬ q.Discharged := by
  cases q with
  | loaded =>
    cases copy
    exact ⟨sound.1, id⟩
  | queueing | waiting | gated | sending | receiving | committing | scheduling =>
    cases copy
    exact ⟨sound.1.fields, id⟩
  | _ => cases copy

/-- Flushing over the row that was loaded gives the session's values. -/
theorem Delivery.flush_current {loaded current : Delivery}
    (fields : current.fields = loaded.fields) : loaded.flush current loaded = current := by
  obtain ⟨key, event, endpoint⟩ := Fields.mk.inj fields
  exact Delivery.flush_loaded key event endpoint

namespace World

variable {env : Env} {l : Label} {x y : World} {id : Uuid} {dueAt : ℚ}

/-- Nothing is replayed, all clocks agree, and only entries that no live worker
holds are claimed. -/
structure Plain (x : World) (l : Label) : Prop where
  ingests : ∀ r call, l = .arrive r call → ∃ tenantId body, call = .ingest tenantId body
  clocks : ∀ now limit, l = .schedule now limit → now ≤ x.clock
  released : ClaimsReleased x l

/-- A worker that lets go of an entry leaves nothing else that carries the
delivery, and a row that awaits no retry beyond the time of the next claim. -/
structure LetsGo (x : World) (l : Label) : Prop where
  sole : LeavesSole x l
  due : ∀ w h row dueAt, l = .crash w ∨ l = .raise w → x.Handles w h →
    x.store.db.delivery h.fields.deliveryId = some row → row.status = .failed →
    row.nextAttemptAt = some dueAt → dueAt ≤ x.clock ∨
      ∀ p ∈ (x.streamOf w).pending, p.id = h.messageId →
        dueAt ≤ p.since + reclaimMinIdleMs / 1000

/-! Session copies -/

/-- As long as a session holds a copy, it is the row. -/
def CopiesCurrent (x : World) : Prop :=
  ∀ w h d, x.Handles w h → h.pc.session.copy = some d → x.core.delivery d.id = some d

/-- The copy that a move leaves, if it leaves one. -/
theorem Move.copy {clock : ℚ} {shard messageId : Nat} {f : Fields} {s : Store} {q q' : Session}
    {c : Core} {d : Delivery} (move : Move env clock shard messageId f.deliveryId s q c q')
    (sound : q.Sound s.core f)
    (current : ∀ d, q.copy = some d → s.core.delivery d.id = some d)
    (copy : q'.copy = some d) : c.delivery d.id = some d := by
  have flushed : ∀ {stage : Stage} {loaded outcome : Delivery}, q.copy = some loaded →
      outcome.fields = loaded.fields →
      (s.core.commitDelivery stage loaded outcome).delivery outcome.id = some outcome := by
    intro stage loaded outcome held fields
    have key : outcome.id = loaded.id := congrArg Fields.deliveryId fields
    rw [Core.delivery_commitDelivery, if_pos key, key, current loaded held, Option.map_some,
      Delivery.flush_current fields]
  cases move with
  | stay => exact current d copy
  | load row _ =>
    cases copy
    rw [← Db.delivery_id row] at row
    exact row
  | queue | gate | pass | wait | receive => exact current d copy
  | send => exact current d copy
  | commitDelivering =>
    cases copy
    exact flushed rfl rfl
  | commitFailed =>
    cases copy
    exact flushed rfl (sound.2.2.2.1.trans sound.1.fields.symm)
  | _ => cases copy

theorem CopiesCurrent.step (current : CopiesCurrent x) (held : Ingesting env x)
    (change : Change env x y l) : CopiesCurrent y := by
  intro w h d handles copy
  cases change.arises handles with
  | begun _ _ begun =>
    subst begun
    cases copy
  | raised _ _ ended _ =>
    rw [ended] at copy
    cases copy
  | moved _ handled _ move kept =>
    exact Move.copy move (held.inv.sessions w _ handled)
      (fun d held => current w _ d handled held) copy
  | same old other =>
    have before := current w h d old copy
    obtain ⟨fields, due⟩ := Session.copy_sound copy (held.inv.sessions w h old)
    have own : d.id = h.fields.deliveryId := congrArg Fields.deliveryId fields
    -- another session that wrote the row would be a second carrier
    have alone : ∀ {w' : Nat} {c : Choice} {h' : Handling} {d' : Delivery}, l = .work w' c →
        x.Handles w' h' → h'.pc.session.copy = some d' → d'.id ≠ d.id := by
      intro w' c h' d' label handles' copy' same
      obtain ⟨fields', due'⟩ := Session.copy_sound copy' (held.inv.sessions w' h' handles')
      have own' : d'.id = h'.fields.deliveryId := congrArg Fields.deliveryId fields'
      have first := held.carries old due
      have second := held.carries handles' due'
      rw [← own', same, own] at second
      have equal := held.sole _ _ _ first second
      obtain ⟨shard, message⟩ := Carrier.entry.inj equal
      obtain ⟨rfl, _⟩ := held.excl.handler old handles' shard.symm message.symm
      exact other c label
    cases change.row held.inv d.id with
    | same same => exact same.trans before
    | delivering label handles' session key =>
      exact absurd key (alone label handles' (by rw [session]; rfl))
    | outcome label handles' session key =>
      exact absurd key (alone label handles' (by rw [session]; rfl))
    | @requeued r _ q _ rows _ _ _ _ running job =>
      obtain ⟨q', rfl⟩ := held.only r q running
      cases pc : q'.pc <;> simp [Request.job, Ingest.job, pc] at job
    | inserted absent =>
      rw [absent] at before
      cases before

/-! Waiting for the retry -/

/-- A worker is about to schedule the retry of this entry, not before `dueAt`. -/
def Scheduling (x : World) (n i : Nat) (dueAt : ℚ) : Prop :=
  ∃ w h d e due, x.Handles w h ∧ x.shard w = n ∧ h.messageId = i ∧
    h.pc.session = .scheduling d e due ∧ dueAt ≤ due

/-- Nobody works on this entry, and it is not claimed before `dueAt`. -/
structure Resting (x : World) (n i : Nat) (dueAt : ℚ) : Prop where
  idle : ∀ w, x.shard w = n → x.Holds w i →
    ∃ h, x.Handles w h ∧ h.messageId = i ∧ h.pc.session = .leaving false
  since : ∃ p ∈ (x.core.queues.streams n).pending, p.id = i ∧
    dueAt ≤ p.since + reclaimMinIdleMs / 1000

/-- A carrier that starts no attempt before `dueAt`. -/
def Late (x : World) (dueAt : ℚ) : Carrier → Prop
  | .promise _ => False
  | .member _ score => dueAt ≤ score
  | .entry n i => x.Scheduling n i dueAt ∨ x.Resting n i dueAt

/-- The row awaits its retry, and so does whatever carries the delivery. -/
structure Awaiting (x : World) (id : Uuid) (dueAt : ℚ) : Prop where
  row : ∃ row, x.core.delivery id = some row ∧ row.status = .failed ∧
    row.nextAttemptAt = some dueAt
  late : ∀ c, x.Carries id c → x.Late dueAt c

/-- The handling of a late entry is scheduling the retry, or over. -/
theorem Late.session (excl : Exclusive x) {w : Nat} {h : Handling} (handles : x.Handles w h)
    (late : x.Late dueAt (.entry (x.shard w) h.messageId)) :
    (∃ d e due, h.pc.session = .scheduling d e due ∧ dueAt ≤ due) ∨
      h.pc.session = .leaving false := by
  rcases late with ⟨w', h', d, e, due, handles', shard, message, session, le⟩ | resting
  · obtain ⟨_, rfl⟩ := excl.handler handles handles' shard message
    exact Or.inl ⟨d, e, due, session, le⟩
  · obtain ⟨h', handles', _, session⟩ := resting.idle w rfl handles.holds
    cases handles.symm.trans handles'
    exact Or.inr session

theorem Exclusive.not_todo (excl : Exclusive x) {w : Nat} {h : Handling}
    (handles : x.Handles w h) : h.messageId ∉ (x.workers w).todo.map Prod.fst := by
  have once := excl.once w
  unfold Handles at handles
  simp only [held, Consumer.held, handles, Option.map_some, Option.toList_some,
    List.cons_append, List.nil_append, List.map_cons, List.nodup_cons] at once
  exact once.1

/-- A worker that still holds the entry that it handled goes on with it. -/
theorem goto_holds (excl : Exclusive x) {w : Nat} {h : Handling} {pc : Pc}
    (handles : x.Handles w h)
    (workers : y.workers = Function.update x.workers w (Consumer.goto (x.workers w) h pc))
    (holds : y.Holds w h.messageId) : y.Handles w { h with pc := pc } := by
  refine (handles_update_self workers).mpr (goto_current.mpr ⟨?_, rfl⟩)
  rintro rfl
  unfold Holds at holds
  rw [held_update_self workers] at holds
  exact excl.not_todo handles holds

theorem Change.let_go (excl : Exclusive x) (change : Change env x y l) {w : Nat} {h : Handling}
    (label : l = .crash w ∨ l = .raise w) (handles : x.Handles w h)
    (holds : y.Holds w h.messageId) :
    ∃ h', y.Handles w h' ∧ h'.messageId = h.messageId ∧ h'.pc.session = .leaving false := by
  have dropped : ∀ {c : Consumer}, c.held = [] → y.workers = Function.update x.workers w c →
      False := by
    intro c empty workers
    unfold Holds at holds
    rw [held_update_self workers, empty] at holds
    exact absurd holds List.not_mem_nil
  rcases label with rfl | rfl
  · cases change with
    | admin label => exact label.elim
    | drop label _ _ empty _ workers =>
      rcases label with same | same <;> cases same
      exact (dropped empty workers).elim
  · cases change with
    | admin label => exact label.elim
    | drop label _ _ empty _ workers =>
      rcases label with same | same <;> cases same
      exact (dropped empty workers).elim
    | raise _ handled _ workers =>
      cases handled.symm.trans handles
      have goes := goto_holds excl handles workers holds
      refine ⟨_, goes, rfl, ?_⟩
      rcases h.pc.onRaise_session with session | finished
      · exact session
      · exact absurd finished (goto_current.mp ((handles_update_self workers).mp goes)).1

theorem Change.stale {w : Nat} {ids : List Nat} (change : Change env x y (.claim w ids)) :
    ∀ id ∈ ids, (x.streamOf w).Stale (reclaimMinIdleMs / 1000) x.clock id := by
  cases change with
  | admin label => exact label.elim
  | claim _ _ _ _ stale => exact stale
  | drop label => rcases label with same | same <;> cases same

/-- A worker lets go of an entry whose retry is to come: the entry rests. -/
theorem LetsGo.resting (letsGo : LetsGo x l) (excl : Exclusive x) (change : Change env x y l)
    {w : Nat} {h : Handling} (label : l = .crash w ∨ l = .raise w) (handles : x.Handles w h)
    (awaiting : Awaiting x h.fields.deliveryId dueAt) (future : ¬ dueAt ≤ x.clock) :
    y.Resting (x.shard w) h.messageId dueAt where
  idle := by
    intro w' shard holds
    rw [change.shard w'] at shard
    have before : x.Holds w' h.messageId := by
      rcases change.holds holds with old | ⟨read, _⟩ | ⟨ids, claim, _⟩
      · exact old
      · rcases label with same | same <;> rw [same] at read <;> cases read
      · rcases label with same | same <;> rw [same] at claim <;> cases claim
    cases excl.apart w' w _ shard before handles.holds
    exact change.let_go excl label handles holds
  since := by
    obtain ⟨p, listed, same⟩ := List.mem_map.mp (excl.pending w _ handles.holds)
    obtain ⟨row, found, failed, next⟩ := awaiting.row
    have due := (letsGo.due w h row dueAt label handles found failed next).resolve_left future
    refine ⟨p, ?_, same, due p listed same⟩
    rcases change.since listed with kept | acks | ⟨w', ids, claim, _⟩
    · exact kept
    · obtain ⟨_, _, _, working, _⟩ := acks.acker
      rcases label with same | same <;> rw [same] at working <;> cases working
    · rcases label with same | same <;> rw [same] at claim <;> cases claim

/-- An entry at rest is not claimed while its retry is to come. -/
theorem Resting.unclaimed {n i : Nat} (resting : x.Resting n i dueAt)
    (future : ¬ dueAt ≤ x.clock) :
    ¬ (x.core.queues.streams n).Stale (reclaimMinIdleMs / 1000) x.clock i := by
  rintro ⟨p, listed, same, idle⟩
  obtain ⟨p', listed', same', due⟩ := resting.since
  have unique : p = p' := List.inj_on_of_nodup_map (x.core.queues.streams n).pending_nodup
    listed listed' (same.trans same'.symm)
  subst unique
  exact future (by linarith)

theorem Resting.step {n i : Nat} (resting : x.Resting n i dueAt) (excl : Exclusive x)
    (change : Change env x y l) (future : ¬ dueAt ≤ x.clock) : y.Resting n i dueAt where
  idle := by
    intro w shard holds
    rw [change.shard w] at shard
    subst shard
    rcases change.holds holds with old | ⟨_, fresh, _⟩ | ⟨ids, _, _, stale⟩
    · obtain ⟨h, handles, rfl, session⟩ := resting.idle w rfl old
      by_cases letGo : l = .crash w ∨ l = .raise w
      · exact change.let_go excl letGo handles holds
      obtain ⟨crash, raise⟩ := not_or.mp letGo
      by_cases working : ∃ c, l = .work w c
      · obtain ⟨c, rfl⟩ := working
        cases change with
        | admin label => exact label.elim
        | drop label => rcases label with same | same <;> cases same
        | @work _ _ _ pc _ handled _ move workers _ =>
          cases handled.symm.trans handles
          have goes := goto_holds excl handles workers holds
          refine ⟨_, goes, rfl, ?_⟩
          have running := (goto_current.mp ((handles_update_self workers).mp goes)).1
          rw [session] at move
          generalize y.core = c' at move
          generalize next : pc.session = q' at move
          cases move with
          | stay => rfl
          | giveUp => exact absurd (Pc.session_finished.mp next) running
      · have still := change.handles_kept handles (fun c same => working ⟨c, same⟩) raise crash
        exact ⟨h, still, rfl, session⟩
    · obtain ⟨p, listed, same, _⟩ := resting.since
      have below := (x.core.queues.streams (x.shard w)).pending_lt p listed
      rw [same, fresh] at below
      exact absurd below (Nat.lt_irrefl _)
    · exact absurd stale (resting.unclaimed future)
  since := by
    obtain ⟨p, listed, rfl, due⟩ := resting.since
    refine ⟨p, ?_, rfl, due⟩
    rcases change.since listed with kept | acks | ⟨w, ids, rfl, rfl, claimed⟩
    · exact kept
    · obtain ⟨w, _, h, _, handles, rfl, message, session, _⟩ := acks.acker
      obtain ⟨h', handles', _, idle⟩ := resting.idle w rfl (message ▸ handles.holds)
      cases handles.symm.trans handles'
      rw [session] at idle
      cases idle
    · exact absurd (change.stale p.id claimed) (resting.unclaimed future)

/-- A late entry stays late as long as it carries the delivery. -/
theorem Late.entry_step {n i : Nat} (late : x.Late dueAt (.entry n i)) (held : Ingesting env x)
    (letsGo : LetsGo x l) (change : Change env x y l) (awaiting : Awaiting x id dueAt)
    (future : ¬ dueAt ≤ x.clock) (before : x.Carries id (.entry n i))
    (after : y.Carries id (.entry n i)) : y.Late dueAt (.entry n i) := by
  rcases late with ⟨w, h, d, e, due, handles, rfl, rfl, session, le⟩ | resting
  · obtain ⟨f, entry, same, _⟩ := before
    have mine : h.fields.deliveryId = id := by
      rw [(handles.entry held.inv).unique entry]
      exact same
    by_cases letGo : l = .crash w ∨ l = .raise w
    · exact Or.inr (letsGo.resting held.excl change letGo handles (mine ▸ awaiting) future)
    obtain ⟨crash, raise⟩ := not_or.mp letGo
    by_cases working : ∃ c, l = .work w c
    · obtain ⟨c, rfl⟩ := working
      have shard := change.shard w
      cases change with
      | admin label => exact label.elim
      | drop label => rcases label with same | same <;> cases same
      | @work _ _ _ pc _ handled _ move workers _ =>
        cases handled.symm.trans handles
        rw [session] at move
        generalize y.core = c' at move
        generalize next : pc.session = q' at move
        cases move with
        | stay =>
          have goes := goto_handles (by rw [next]; simp) workers
          exact Or.inl ⟨w, _, d, e, due, goes, shard, rfl, next, le⟩
        | schedule =>
          obtain ⟨_, _, _, _, pending⟩ := after
          have goes := goto_handles (by rw [next]; simp) workers
          refine absurd ⟨w, _, goes, shard, rfl, ?_⟩ pending
          change pc.session.Discharged
          rw [next]
          trivial
    · have still := change.handles_kept handles (fun c same => working ⟨c, same⟩) raise crash
      exact Or.inl ⟨w, h, d, e, due, still, change.shard w, rfl, session, le⟩
  · exact Or.inr (resting.step held.excl change future)

/-- Whoever writes the row or sends has an entry that is not late. -/
theorem Awaiting.no_copy (awaiting : Awaiting x id dueAt) (held : Ingesting env x) {w : Nat}
    {h : Handling} {d : Delivery} (handles : x.Handles w h) (copy : h.pc.session.copy = some d)
    (own : d.id = id) : ∃ d e due, h.pc.session = .scheduling d e due := by
  obtain ⟨fields, due⟩ := Session.copy_sound copy (held.inv.sessions w h handles)
  have key : d.id = h.fields.deliveryId := congrArg Fields.deliveryId fields
  have carries := held.carries handles due
  rw [← key, own] at carries
  rcases Late.session held.excl handles (awaiting.late _ carries) with
    ⟨d, e, due, session, _⟩ | ended
  · exact ⟨d, e, due, session⟩
  · rw [ended] at copy
    cases copy

theorem Awaiting.step (awaiting : Awaiting x id dueAt) (held : Ingesting env x)
    (plain : Plain x l) (letsGo : LetsGo x l) (stepped : World.step env l x = some y)
    (future : ¬ dueAt ≤ x.clock) : Awaiting y id dueAt where
  row := by
    obtain ⟨row, found, failed, next⟩ := awaiting.row
    cases (step_change stepped).row held.inv id with
    | same same => exact ⟨row, same.trans found, failed, next⟩
    | delivering _ handles session key =>
      obtain ⟨_, _, _, scheduling⟩ := awaiting.no_copy held handles (by rw [session]; rfl) key
      rw [session] at scheduling
      cases scheduling
    | outcome _ handles session key =>
      obtain ⟨_, _, _, scheduling⟩ := awaiting.no_copy held handles (by rw [session]; rfl) key
      rw [session] at scheduling
      cases scheduling
    | @requeued r _ q _ rows _ _ _ _ running job =>
      obtain ⟨q', rfl⟩ := held.only r q running
      cases pc : q'.pc <;> simp [Request.job, Ingest.job, pc] at job
    | inserted absent =>
      rw [absent] at found
      cases found
  late := by
    have change := step_change stepped
    have kept : ∀ c, x.Carries id c → y.Carries id c → y.Late dueAt c := by
      intro c before after
      have late := awaiting.late c before
      cases c with
      | promise => exact late
      | member => exact late
      | entry n i => exact late.entry_step held letsGo change awaiting future before after
    intro c carries
    cases held.passage letsGo.sole stepped id with
    | kept back => exact kept c (back c carries) carries
    | passed old gone back passes =>
      rcases back c carries with before | rfl
      · exact kept c before carries
      have late := awaiting.late _ old
      cases passes with
      | append => exact late.elim
      | @retry w _ h _ _ label handles session =>
        rcases Late.session held.excl handles late with ⟨d, e, due, scheduling, le⟩ | ended
        · rw [scheduling] at session
          obtain ⟨_, rfl⟩ := session
          exact le
        · exact absurd ended session.due.2
      | move label due =>
        exact absurd (le_trans (le_trans late due) (plain.clocks _ _ label)) future
    | committed absent =>
      obtain ⟨row, found, _⟩ := awaiting.row
      rw [absent] at found
      cases found
    | reopened reopens _ back =>
      rw [back c carries]
      exact Or.inr (letsGo.resting held.excl change reopens.label reopens.handles
        (reopens.same ▸ awaiting) future)

/-! Failed attempts in the history -/

/-- How the outcome of an attempt gets into the history. -/
theorem Change.commits (held : Ingesting env x) (change : Change env x y l) {row : Delivery}
    (logged : .committed .outcome row ∈ y.core.log) :
    .committed .outcome row ∈ x.core.log ∨
      ∃ w h pc d e outcome old delay, x.Handles w h ∧
        h.pc.session = .committing d e outcome delay ∧ x.core.delivery d.id = some old ∧
        row = d.flush outcome old ∧ y.core.delivery d.id = some row ∧
        y.Handles w { h with pc := pc } ∧
        ∀ seconds, delay = some seconds →
          pc.session = .scheduling outcome e (x.clock + seconds) := by
  have silent : y.core.log = x.core.log → .committed .outcome row ∈ x.core.log :=
    fun same => same ▸ logged
  cases change with
  | admin _ _ _ _ core | arrive _ core | read _ _ _ core | claim _ _ _ _ _ core
  | take _ _ _ core | raise _ _ core | drop _ _ core | schedule _ core | fail _ _ core =>
    exact Or.inl (silent (congrArg Core.log core :))
  | @work w c h pc _ handles _ move workers _ =>
    have goes : pc.session ≠ .finished → y.Handles w { h with pc := pc } :=
      fun running => goto_handles running workers
    generalize session : h.pc.session = q at move
    generalize core : y.core = c' at move logged
    generalize next : pc.session = q' at move goes
    have entries : ∀ {stage : Stage} {d current : Delivery},
        LogEntry.committed .outcome row ∈ (x.core.commitDelivery stage d current).log →
        LogEntry.committed .outcome row ∈ x.core.log ∨ (stage = .outcome ∧
          ∃ old, x.core.delivery d.id = some old ∧ row = d.flush current old) := by
      intro stage d current logged
      rcases List.mem_append.mp logged with new | before
      · obtain ⟨old, found, same⟩ := Option.map_eq_some_iff.mp (Option.mem_toList.mp new)
        cases same
        exact Or.inr ⟨rfl, old, found, rfl⟩
      · exact Or.inl before
    cases move with
    | commitDelivering =>
      rcases entries logged with before | ⟨stage, _⟩
      · exact Or.inl before
      · cases stage
    | @commitFailed d _ outcome e delay _ =>
      refine (entries logged).imp_right ?_
      rintro ⟨_, old, found, rfl⟩
      refine ⟨w, h, pc, d, e, outcome, old, some delay, handles, session, found, rfl, ?_,
        goes (by simp), ?_⟩
      · rw [Core.delivery_commitDelivery, if_pos rfl, found]
        rfl
      · rintro seconds ⟨⟩
        exact next
    | @commitSettled d _ outcome e _ =>
      refine (entries logged).imp_right ?_
      rintro ⟨_, old, found, rfl⟩
      refine ⟨w, h, pc, d, e, outcome, old, none, handles, session, found, rfl, ?_,
        goes (by simp), ?_⟩
      · rw [Core.delivery_commitDelivery, if_pos rfl, found]
        rfl
      · rintro seconds ⟨⟩
    | send =>
      rcases List.mem_cons.mp logged with same | before
      · cases same
      · exact Or.inl before
    | _ => exact Or.inl logged
  | @serve r ids q q' _ running move _ _ =>
    left
    obtain ⟨q₀, rfl⟩ := held.only r q running
    generalize job : Request.job _ (.ingest q₀) = j at move
    generalize y.core = c at move logged
    generalize Request.job _ q' = j' at move
    cases move with
    | requeue => cases pc : q₀.pc <;> simp [Request.job, Ingest.job, pc] at job
    | @exec _ command _ =>
      cases command with
      | zrem => exact logged
      | rpush | xadd =>
        rcases List.mem_cons.mp logged with same | before
        · cases same
        · exact before
    | _ => exact logged

/-- Every failed attempt is due, or its delivery awaits the retry. -/
def Backed (x : World) : Prop :=
  ∀ row dueAt, .committed .outcome row ∈ x.core.log → row.status = .failed →
    row.nextAttemptAt = some dueAt → dueAt ≤ x.clock ∨ Awaiting x row.id dueAt

theorem Backed.step (backed : Backed x) (held : Ingesting env x) (held' : Ingesting env y)
    (current : CopiesCurrent x) (timed : OutcomesTimed x) (plain : Plain x l)
    (letsGo : LetsGo x l) (stepped : World.step env l x = some y) : Backed y := by
  have change := step_change stepped
  intro row dueAt logged failed due
  rcases change.commits held logged with old | ⟨w, h, pc, d, e, outcome, old, delay, handles,
    session, found, rfl, now, goes, next⟩
  · by_cases past : dueAt ≤ x.clock
    · exact Or.inl (past.trans change.clock_le)
    · have awaiting := (backed row dueAt old failed due).resolve_left past
      exact Or.inr (awaiting.step held plain letsGo stepped past)
  · right
    have sound := held.inv.sessions w h handles
    rw [session] at sound
    have fields : outcome.fields = d.fields := sound.2.2.2.1.trans sound.1.fields.symm
    have same := current w h d handles (by rw [session]; rfl)
    rw [found] at same
    cases same
    rw [Delivery.flush_current fields] at failed due now ⊢
    obtain ⟨time, before, resolved⟩ := timed w h d e outcome delay handles session
    cases resolved with
    | delivered => cases failed
    | dead => cases failed
    | failed seconds =>
      have scheduling := next seconds rfl
      have carries := held'.carries goes (fun done => by
        change pc.session.Discharged at done
        rw [scheduling] at done
        exact done)
      have key : d.id = h.fields.deliveryId := congrArg Fields.deliveryId sound.1.fields
      refine ⟨⟨_, now, failed, due⟩, fun a carried => ?_⟩
      change y.Carries d.id a at carried
      rw [key] at carried
      cases held'.sole _ _ _ carries carried
      refine Or.inl ⟨w, _, _, e, _, goes, rfl, rfl, scheduling, ?_⟩
      cases due
      linarith

/-- The guard of `backoff_respected`. -/
def Respects (x : World) (l : Label) : Prop := Plain x l ∧ LetsGo x l

/-- All that is kept along a run in which workers let go safely. -/
structure BacksOff (env : Env) (x : World) : Prop where
  held : Ingesting env x
  current : CopiesCurrent x
  timed : OutcomesTimed x
  backed : Backed x

theorem backsOff_initial (env : Env) (shardOf : Nat → Nat) : BacksOff env (initial shardOf) where
  held := ingesting_initial env shardOf
  current := by
    intro w h d handles
    cases handles
  timed := by
    intro w h d e outcome delay handles
    cases handles
  backed := fun _ _ logged => absurd logged List.not_mem_nil

theorem BacksOff.step (old : BacksOff env x) (admitted : Respects x l)
    (stepped : World.step env l x = some y) : BacksOff env y := by
  obtain ⟨plain, letsGo⟩ := admitted
  have held := old.held.step letsGo.sole plain.released plain.ingests stepped
  exact {
    held := held
    current := old.current.step old.held (step_change stepped)
    timed := old.timed.step (step_change stepped)
    backed := old.backed.step old.held held old.current old.timed plain letsGo stepped }

/-- When workers let go safely, no attempt starts before the time that the last
failed attempt, or any earlier one, has committed. -/
theorem backoff_respected {shardOf : Nat → Nat} {row : Delivery} {time : ℚ}
    (run : Run (World.step env) Respects (initial shardOf) x)
    (stepped : World.step env l x = some y)
    (starts : y.store.log = .attempt id time :: x.store.log)
    (committed : .committed .outcome row ∈ x.store.log) (same : row.id = id)
    (failed : row.status = .failed) (due : row.nextAttemptAt = some dueAt) : dueAt ≤ time := by
  have kept : BacksOff env x := run.invariant (backsOff_initial env shardOf)
    (fun old admitted next => old.step admitted next)
  cases (step_change stepped).logs with
  | @quiet more _ log only =>
    have appended : [.attempt id time] ++ x.store.log = more ++ x.store.log := starts.symm.trans log
    have new : LogEntry.attempt id time ∈ more :=
      List.append_cancel_right appended ▸ List.mem_cons_self
    exact (only _ new).elim
  | push _ _ _ _ log => cases starts.symm.trans log
  | pop _ _ _ _ log =>
    have longer := congrArg List.length (starts.symm.trans log)
    simp at longer
  | @attempt w _ h d e _ handles session _ log =>
    cases starts.symm.trans log
    rcases kept.backed row dueAt committed failed due with past | awaiting
    · exact past
    · obtain ⟨_, _, _, scheduling⟩ :=
        awaiting.no_copy kept.held handles (by rw [session]; rfl) same.symm
      rw [session] at scheduling
      cases scheduling

/-! A crash before the handling, and one between the commit and the retry -/

/-- The check of `Plain` for the first `n` workers. -/
def plain (n : Nat) (x : World) (l : Label) : Bool :=
  (match l with
    | .arrive _ (.ingest _ _) => true
    | .arrive _ _ => false
    | .schedule now _ => decide (now ≤ x.clock)
    | _ => true) && releasedClaims n x l

theorem plain_sound {n m : Nat} (untouched : Untouched n m x) (checked : plain n x l = true) :
    Plain x l := by
  obtain ⟨label, claims⟩ := Bool.and_eq_true_iff.mp checked
  refine ⟨?_, ?_, releasedClaims_sound untouched claims⟩
  · rintro r call rfl
    cases call with
    | ingest tenantId body => exact ⟨tenantId, body, rfl⟩
    | replay | approve => cases label
  · rintro now limit rfl
    exact of_decide_eq_true label

/-- Only workers that handle nothing let go. -/
def letsGoIdle (x : World) : Label → Bool
  | .crash w | .raise w => (x.workers w).current.isNone
  | _ => true

theorem letsGoIdle_sound (checked : letsGoIdle x l = true) : LetsGo x l := by
  have idle : ∀ w h, l = .crash w ∨ l = .raise w → ¬ x.Handles w h := by
    intro w h label handles
    unfold Handles at handles
    rcases label with rfl | rfl <;> simp [letsGoIdle, handles] at checked
  exact ⟨fun w h _ label handles => absurd handles (idle w h label),
    fun w h _ _ label handles => absurd handles (idle w h label)⟩

/-- Worker 2 crashes with the entry in its batch, worker 0 claims it and fails at
60 s, and worker 1 attempts the retry at 100 s. -/
def retriedLate : List Label :=
  ingested shop 10 11 ++ [.read 2, .crash 2, .tick 60, .claim 0 [0], .take 0] ++
    works 0 20 erring ++ [.tick 100, .schedule 100 500, .read 1, .take 1] ++ works 1 11 erring

theorem backoff_respected_late : ∃ x y row,
    Run (World.step headerless) Respects (initial (fun _ => 3)) x ∧
      World.step headerless (.work 1 erring) x = some y ∧
      y.store.log = .attempt 11 100 :: x.store.log ∧ .committed .outcome row ∈ x.store.log ∧
      row.id = 11 ∧ row.status = .failed ∧ row.nextAttemptAt = some 65 ∧
        (65 : ℚ) ≤ 100 := by
  have evaluates : (exec (World.step headerless) (fun x l => plain 3 x l && letsGoIdle x l)
      retriedLate (initial (fun _ => 3))).elim false (fun x =>
        decide (.committed .outcome ⟨11, 10, 1, .failed, 1, some 65⟩ ∈ x.store.log) &&
        (World.step headerless (.work 1 erring) x).elim false
          (fun y => decide (y.store.log = .attempt 11 100 :: x.store.log))) = true := by
    decide +kernel
  obtain ⟨x, executed, passes⟩ := reached evaluates
  obtain ⟨logged, rest⟩ := Bool.and_eq_true_iff.mp passes
  obtain ⟨y, stepped, starts⟩ := reached rest
  have sound : ∀ {x l}, Untouched 3 1 x → Within 3 1 l = true →
      (plain 3 x l && letsGoIdle x l) = true → Respects x l := by
    intro x l untouched _ checked
    obtain ⟨first, second⟩ := Bool.and_eq_true_iff.mp checked
    exact ⟨plain_sound untouched first, letsGoIdle_sound second⟩
  have run := (schedule_run (untouched_initial 3 1 _) (by decide) sound executed).1
  have committed := of_decide_eq_true logged
  exact ⟨x, y, _, run, stepped, of_decide_eq_true starts, committed, rfl, rfl, rfl,
    backoff_respected run stepped (of_decide_eq_true starts) committed rfl rfl rfl⟩

/-- Python's `float` reads the header of the example. -/
def hourly : Env where
  float := fun text => if text = "3600" then some (.finite 3600) else none

def throttled : Choice := ⟨7, ⟨0, some 429, some "http_4xx", none, some "3600"⟩, 1⟩

/-- Worker 0 crashes after it committed a retry in one hour, and worker 1 claims
the entry a minute later. -/
def retriedEarly : List Label :=
  ingested shop 10 11 ++ [.read 0, .take 0] ++ works 0 14 throttled ++
    [.crash 0, .tick 60, .claim 1 [0], .take 1] ++ works 1 11 throttled

theorem backoff_broken : ∃ x y row dueAt time,
    Run (World.step hourly) Plain (initial (fun _ => 3)) x ∧
      World.step hourly (.work 1 throttled) x = some y ∧
      y.store.log = .attempt 11 time :: x.store.log ∧ .committed .outcome row ∈ x.store.log ∧
      row.id = 11 ∧ row.status = .failed ∧ row.nextAttemptAt = some dueAt ∧ time < dueAt := by
  have evaluates : (exec (World.step hourly) (plain 2) retriedEarly
      (initial (fun _ => 3))).elim false (fun x =>
        decide (.committed .outcome ⟨11, 10, 1, .failed, 1, some 3600⟩ ∈ x.store.log) &&
        (World.step hourly (.work 1 throttled) x).elim false
          (fun y => decide (y.store.log = .attempt 11 60 :: x.store.log))) = true := by
    decide +kernel
  obtain ⟨x, executed, passes⟩ := reached evaluates
  obtain ⟨logged, rest⟩ := Bool.and_eq_true_iff.mp passes
  obtain ⟨y, stepped, starts⟩ := reached rest
  have sound : ∀ {x l}, Untouched 2 1 x → Within 2 1 l = true → plain 2 x l = true →
      Plain x l := fun untouched _ => plain_sound untouched
  have run := (schedule_run (untouched_initial 2 1 _) (by decide) sound executed).1
  exact ⟨x, y, _, 3600, 60, run, stepped, of_decide_eq_true starts, of_decide_eq_true logged,
    rfl, rfl, rfl, by norm_num⟩

end World

end Relay
